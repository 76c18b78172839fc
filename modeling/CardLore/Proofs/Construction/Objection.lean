import CardLore.Proofs.Construction.Described
import CardLore.Proofs.Construction.Invariant

namespace CardLore

-- What is wrong with a statement, and the place of the earlier one that it is in conflict with.
structure Objection where
  code : String
  earlier : Option Span
deriving DecidableEq, Repr

-- The place of the first statement of some sort.
def firstPlace {α : Type} (sort : α → Bool) (before : List (Located α)) : Option Span :=
  (before.find? fun s => sort s.value).map (·.span)

inductive FieldType where
  | text
  | flag
  | count
  | word (allowed : List String)
deriving DecidableEq, Repr

-- Nothing is converted from one type to another. A word is looked up in lower case.
def FieldType.objection? : FieldType → Literal → Option Objection
  | text, .string _ => none
  | flag, .bool _ => none
  | count, .int n => if 0 ≤ n then none else some ⟨"E202", none⟩
  | word allowed, .string t =>
    if (allowed.map Text.ofString).contains (Text.lower t) then none else some ⟨"E207", none⟩
  | _, _ => some ⟨"E202", none⟩

def Aspect.fieldTypes : List (String × FieldType) :=
  [("icon", .text), ("verbicon", .text)]

def Card.fieldTypes : List (String × FieldType) :=
  [("icon", .text), ("verbicon", .text), ("resaturate", .flag)]

def Recipe.fieldTypes : List (String × FieldType) :=
  [("warmup", .count), ("maxexecutions", .count), ("craftable", .flag), ("hintonly", .flag),
    ("burn", .text), ("portal", .text),
    ("style", .word ["none", "grand", "melancholy", "pale", "vile", "important"])]

def Legacy.fieldTypes : List (String × FieldType) :=
  [("image", .text), ("newstart", .flag), ("availablewithoutendingmatch", .flag)]

def assignmentObjection? (types : List (String × FieldType)) (before : List Statement) (key : Key)
    (value : Literal) : Option Objection :=
  if key ∈ signatureKeys then some ⟨"E201", none⟩
  else match firstPlace (fun c => c.assignment?.map (·.1) = some key) before with
    | some first => some ⟨"E200", some first⟩
    | none => match types.find? fun t => (t.1 : Key) = key with
      | some (_, type) => type.objection? value
      | none => none

-- A statement of a sort that may appear once.
def repetitionObjection? {α : Type} (code : String) (sort : α → Bool) (before : List (Located α)) :
    Option Objection :=
  (firstPlace sort before).map fun first => ⟨code, some first⟩

def duplicateObjection? (earlier : List Key) (key : Key) : Option Objection :=
  if key ∈ earlier then some ⟨"E203", none⟩ else none

def Aspect.objection? (before : List Statement) (s : Statement) : Option Objection :=
  match s.value with
  | .set key value => assignmentObjection? fieldTypes before key value
  | .induce .. => repetitionObjection? "E205" (·.induction?.isSome) before
  | .xtrigger _ => none
  | _ => some ⟨"E100", none⟩

def Card.aspectObjection? (before : List (Located (Key × Int))) (a : Located (Key × Int)) :
    Option Objection :=
  duplicateObjection? (before.map (·.value.1)) a.value.1

def Card.objection? (before : List Statement) (s : Statement) : Option Objection :=
  match s.value with
  | .set key value => assignmentObjection? fieldTypes before key value
  | .induce .. => repetitionObjection? "E205" (·.induction?.isSome) before
  | .unique _ => repetitionObjection? "E204" (·.uniqueness?.isSome) before
  | .slot (some _) _ => none
  | .xtrigger _ => none
  | _ => some ⟨"E100", none⟩

def Deck.objection? (before : List (Located DeckEntry)) (e : Located DeckEntry) :
    Option Objection :=
  if e.value.isDefault then repetitionObjection? "E206" (·.isDefault) before else none

def Verb.objection? (before : List Statement) (s : Statement) : Option Objection :=
  match s.value with
  | .set key value => assignmentObjection? [] before key value
  | _ => some ⟨"E100", none⟩

def Recipe.objection? (before : List Statement) (s : Statement) : Option Objection :=
  match s.value with
  | .set key value => assignmentObjection? fieldTypes before key value
  | .require _ => none
  | .quantity word element _ =>
    if word ∈ ["effect", "aspect", "purge", "draw", "halt", "delete"] then
      duplicateObjection? ((said (Clause.entryOf? word) before).map (·.1)) element
    else some ⟨"E100", none⟩
  | .mutate _ => none
  | .reference "ending" _ =>
    repetitionObjection? "E205" (fun c => (c.target? "ending").isSome) before
  | .slot none _ => repetitionObjection? "E205" (·.ownSlot?.isSome) before
  | .branch _ => none
  | _ => some ⟨"E100", none⟩

-- A repeated status element is reported as such even if the status bar is full.
def Legacy.objection? (before : List Statement) (s : Statement) : Option Objection :=
  match s.value with
  | .set key value => assignmentObjection? fieldTypes before key value
  | .reference "verb" _ => repetitionObjection? "E205" (fun c => (c.target? "verb").isSome) before
  | .reference "ending" _ =>
    repetitionObjection? "E205" (fun c => (c.target? "ending").isSome) before
  | .reference "status" target =>
    let shown := said (Clause.target? "status") before
    (duplicateObjection? shown target).or
      (if shown.length = 4 then some ⟨"E211", none⟩ else none)
  | .reference "exclude" target =>
    duplicateObjection? (said (Clause.target? "exclude") before) target
  | .startingCard card _ =>
    duplicateObjection? ((said Clause.startingCard? before).map (·.1)) card
  | _ => some ⟨"E100", none⟩

section

variable {α σ R : Type}

-- Some item is offensive, given the ones before it.
def Offensive (objection? : List (Located α) → Located α → Option Objection)
    (items : List (Located α)) : Prop :=
  ∃ before s after, items = before ++ s :: after ∧ objection? before s ≠ none

-- The refusal is an error with the code of the objection, at the place of the item, and with the
-- earlier place marked.
structure Refusal.Reports (r : Refusal) (o : Objection) (span : Span) : Prop where
  severity : r.diagnostic.severity = .error
  code : r.diagnostic.code = o.code
  labels : r.diagnostic.labels =
    .primary span :: (o.earlier.map (Label.secondary · "first set here")).toList

-- The refusal is for the first offensive item.
def Refusal.Blames (r : Refusal) (objection? : List (Located α) → Located α → Option Objection)
    (items : List (Located α)) : Prop :=
  ∃ before s after o, items = before ++ s :: after ∧ ¬ Offensive objection? before ∧
    objection? before s = some o ∧ r.Reports o s.span

-- A step takes up an item without an objection and refuses one with an objection.
def Answers (objection : Option Objection) (span : Span) (P : σ → Prop)
    (result : Except Refusal σ) : Prop :=
  match objection with
  | none => ∃ d, result = .ok d ∧ P d
  | some o => ∃ r, result = .error r ∧ r.Reports o span

theorem not_offensive_nil (objection? : List (Located α) → Located α → Option Objection) :
    ¬ Offensive objection? [] := by
  rintro ⟨before, s, after, heq, -⟩
  cases before <;> cases heq

theorem offensive_concat_iff {objection? : List (Located α) → Located α → Option Objection}
    {items : List (Located α)} {s : Located α} :
    Offensive objection? (items ++ [s]) ↔
      Offensive objection? items ∨ objection? items s ≠ none := by
  constructor
  · rintro ⟨before, t, after, heq, hobjection⟩
    rcases List.eq_nil_or_concat after with rfl | ⟨after, u, rfl⟩
    · obtain ⟨rfl, hlast⟩ := List.append_inj' heq rfl
      cases hlast
      exact .inr hobjection
    · rw [List.concat_eq_append, ← List.cons_append, ← List.append_assoc] at heq
      exact .inl ⟨before, t, after, (List.append_inj' heq rfl).1, hobjection⟩
  · rintro (⟨before, t, after, rfl, hobjection⟩ | hobjection)
    · exact ⟨before, t, after ++ [s], by simp, hobjection⟩
    · exact ⟨items, s, [], rfl, hobjection⟩

-- The fold goes on as long as there is no objection. The invariant speaks of the items that were
-- taken up.
theorem foldlM_answers {objection? : List (Located α) → Located α → Option Objection}
    {add : σ → Located α → Except Refusal σ} {I : List (Located α) → σ → Prop}
    (hadd : ∀ before d s, I before d →
      Answers (objection? before s) s.span (I (before ++ [s])) (add d s))
    {start : σ} (hstart : I [] start) (items : List (Located α)) :
    (¬ Offensive objection? items ∧ ∃ d, items.foldlM add start = .ok d ∧ I items d) ∨
      (Offensive objection? items ∧
        ∃ r, items.foldlM add start = .error r ∧ r.Blames objection? items) := by
  have hsteps : ∀ after before d, ¬ Offensive objection? before → I before d →
      (¬ Offensive objection? (before ++ after) ∧
          ∃ d', after.foldlM add d = .ok d' ∧ I (before ++ after) d') ∨
        (Offensive objection? (before ++ after) ∧
          ∃ r, after.foldlM add d = .error r ∧ r.Blames objection? (before ++ after)) := by
    intro after
    induction after with
    | nil =>
        intro before d hbefore hd
        rw [List.append_nil]
        exact .inl ⟨hbefore, d, rfl, hd⟩
    | cons s after ih =>
        intro before d hbefore hd
        have hanswer := hadd before d s hd
        rw [List.foldlM_cons]
        cases hobjection : objection? before s with
        | none =>
            rw [hobjection] at hanswer
            obtain ⟨mid, hmid, hI⟩ := hanswer
            have hmore : ¬ Offensive objection? (before ++ [s]) := by
              rw [offensive_concat_iff, hobjection]
              exact not_or.mpr ⟨hbefore, fun h => h rfl⟩
            rw [hmid, List.append_cons]
            exact ih (before ++ [s]) mid hmore hI
        | some o =>
            rw [hobjection] at hanswer
            obtain ⟨r, hr, hreports⟩ := hanswer
            refine .inr ⟨⟨before, s, after, rfl, ?_⟩, r, ?_, before, s, after, o, rfl, hbefore,
              hobjection, hreports⟩
            · rw [hobjection]
              exact Option.some_ne_none o
            · rw [hr]
              rfl
  exact hsteps items [] start (not_offensive_nil objection?) hstart

end

-- The first entries of the statements of one form, with their places.
def places {β : Type} (form : Clause → Option β) (ss : List Statement) : List (β × Span) :=
  ss.filterMap fun s => (form s.value).map fun b => (b, s.span)

section

variable {β : Type}

theorem places_concat (form : Clause → Option β) (ss : List Statement) (s : Statement) :
    places form (ss ++ [s]) =
      places form ss ++ ((form s.value).map fun b => (b, s.span)).toList := by
  rw [places, List.filterMap_append, ← places]
  cases h : form s.value <;> simp [h]

theorem lookup_places [BEq β] [LawfulBEq β] [DecidableEq β] (form : Clause → Option β)
    (ss : List Statement) (b : β) :
    (places form ss).lookup b = firstPlace (fun c => form c = some b) ss := by
  induction ss with
  | nil => rfl
  | cons s ss ih =>
      have hcons : places form (s :: ss) =
          ((form s.value).map fun b => (b, s.span)).toList ++ places form ss := by
        rw [places, List.filterMap_cons]
        cases form s.value <;> rfl
      rw [hcons, List.lookup_append, ih, firstPlace, firstPlace, List.find?_cons]
      by_cases h : form s.value = some b
      · simp [h]
      · cases hform : form s.value with
        | none => simp
        | some a =>
            have hne : b ≠ a := by
              rintro rfl
              exact h hform
            simp [List.lookup_cons, beq_eq_false_iff_ne.mpr hne, Ne.symm hne]

end

-- The draft holds the described record, and has taken note of every assignment and of every
-- statement with a name.
structure Draft.Tells {R : Type} (described : List Statement → R) (name? : Clause → Option String)
    (before : List Statement) (d : Draft R) : Prop where
  record : d.record = described before
  assigned : d.assigned = places (fun c => c.assignment?.map (·.1)) before
  used : d.used = places name? before

-- One entry of a kind's table does what the type of its key asks for, wherever the key is new.
def Fits {R : Type} (described : List Statement → R) (name : String)
    (convert : Literal → Except Misfit (R → R)) (type : FieldType) : Prop :=
  ∀ ss value span, said (Clause.valueFor? name) ss = [] →
    match type.objection? value with
    | none => ∃ update, convert value = .ok update ∧
        described (ss ++ [⟨.set name value, span⟩]) = update (described ss)
    | some o => ∃ misfit, convert value = .error misfit ∧
        (misfit.offence name value).code = o.code ∧ (misfit.offence name value).earlier? = o.earlier

-- The table of a kind fits the types of its keys, and other keys are only added.
structure Fields.Fit {R : Type} (fields : Fields R) (described : List Statement → R)
    (types : List (String × FieldType)) : Prop where
  known : List.Forall₂ (fun e t => e.1 = t.1 ∧ Fits described t.1 e.2 t.2) fields.known types
  other : ∀ ss key value span, (∀ t ∈ types, (t.1 : Key) ≠ key) →
    described (ss ++ [⟨.set key value, span⟩]) = fields.addOther key value (described ss)

theorem Refusal.reports_mk {offence : Offence} {span : Span} {o : Objection}
    (hcode : offence.code = o.code) (hearlier : offence.earlier? = o.earlier) :
    (⟨offence, span⟩ : Refusal).Reports o span where
  severity := rfl
  code := hcode
  labels := by
    rw [← hearlier]
    rfl

theorem said_eq_nil_of_firstPlace {α : Type} {form : Clause → Option α} {sort : Clause → Bool}
    {ss : List Statement} (hsort : ∀ c, (form c).isSome → sort c = true)
    (h : firstPlace sort ss = none) : said form ss = [] := by
  rw [firstPlace, Option.map_eq_none_iff, List.find?_eq_none] at h
  rw [said, List.filterMap_eq_nil_iff]
  intro s hs
  exact Option.not_isSome_iff_eq_none.mp (mt (hsort s.value) (h s hs))

theorem said_valueFor_eq_nil {key : Key} {ss : List Statement}
    (h : firstPlace (fun c => c.assignment?.map (·.1) = some key) ss = none) :
    said (Clause.valueFor? key) ss = [] := by
  refine said_eq_nil_of_firstPlace (fun c hc => ?_) h
  cases c with
  | set k value =>
      by_cases hk : k = key
      · simp [hk]
      · simp [hk] at hc
  | _ => simp at hc

-- Looking a key up finds the entry and the type of the same name.
theorem find?_forall₂ {R : Type} {known : List (String × R)} {types : List (String × FieldType)}
    {P : String × R → String × FieldType → Prop}
    (h : List.Forall₂ (fun e t => e.1 = t.1 ∧ P e t) known types) (key : Key) :
    (known.find? (fun e => Text.ofString e.1 = key.text) = none ∧
        types.find? (fun t => (t.1 : Key) = key) = none ∧ ∀ t ∈ types, (t.1 : Key) ≠ key) ∨
      ∃ e t, known.find? (fun e => Text.ofString e.1 = key.text) = some e ∧
        types.find? (fun t => (t.1 : Key) = key) = some t ∧ (t.1 : Key) = key ∧ P e t := by
  induction h with
  | nil => exact .inl ⟨rfl, rfl, nofun⟩
  | @cons e t known types het _ ih =>
      obtain ⟨hname, hP⟩ := het
      have hsame : Text.ofString e.1 = key.text ↔ (t.1 : Key) = key := by
        rw [hname]
        exact ⟨fun heq => congrArg Key.mk heq, congrArg Key.text⟩
      by_cases hkey : (t.1 : Key) = key
      · refine .inr ⟨e, t, ?_, ?_, hkey, hP⟩
        · rw [List.find?_cons, decide_eq_true (hsame.mpr hkey)]
        · rw [List.find?_cons, decide_eq_true hkey]
      · rw [List.find?_cons, decide_eq_false (mt hsame.mp hkey), List.find?_cons,
          decide_eq_false hkey]
        rcases ih with ⟨hknown, htypes, hne⟩ | hfound
        · exact .inl ⟨hknown, htypes, List.forall_mem_cons.mpr ⟨hkey, hne⟩⟩
        · exact .inr hfound

namespace Draft.Tells

variable {R : Type} {described : List Statement → R} {name? : Clause → Option String}
  {before : List Statement} {d : Draft R} {c : Clause} {span : Span}

theorem ofRecord {r : R} (h : r = described []) : (Draft.ofRecord r).Tells described name? [] :=
  ⟨h, rfl, rfl⟩

-- A statement of which no note is taken.
theorem modify (hd : d.Tells described name? before) {f : R → R} (hassigned : c.assignment? = none)
    (hname : name? c = none)
    (hdescribed : described (before ++ [⟨c, span⟩]) = f (described before)) :
    (d.modify f).Tells described name? (before ++ [⟨c, span⟩]) where
  record := by
    rw [hdescribed, ← hd.record]
    rfl
  assigned := by
    rw [places_concat, hassigned]
    exact hd.assigned.trans (List.append_nil _).symm
  used := by
    rw [places_concat, hname]
    exact hd.used.trans (List.append_nil _).symm

theorem use (hd : d.Tells described name? before) {f : R → R} {name : String}
    (hassigned : c.assignment? = none) (hname : name? c = some name)
    (hdescribed : described (before ++ [⟨c, span⟩]) = f (described before)) :
    (({ d with used := d.used ++ [(name, span)] } : Draft R).modify f).Tells described name?
      (before ++ [⟨c, span⟩]) where
  record := by
    rw [hdescribed, ← hd.record]
    rfl
  assigned := by
    rw [places_concat, hassigned]
    exact hd.assigned.trans (List.append_nil _).symm
  used := by
    rw [places_concat, hname, ← hd.used]
    rfl

-- A statement that may appear once.
theorem reserve (hd : d.Tells described name? before) {kind : Kind} {name : String} {f : R → R}
    {sort : Clause → Bool} (hsort : ∀ c, decide (name? c = some name) = sort c)
    (hassigned : c.assignment? = none) (hname : name? c = some name)
    (hdescribed : firstPlace sort before = none →
      described (before ++ [⟨c, span⟩]) = f (described before)) :
    Answers (repetitionObjection? "E205" sort before) span
      (Tells described name? (before ++ [⟨c, span⟩]))
      (do
        let d ← d.reserve kind name span
        return d.modify f) := by
  have hlookup : d.used.lookup name = firstPlace sort before := by
    rw [hd.used, lookup_places]
    simp only [hsort]
  rw [repetitionObjection?, Draft.reserve, hlookup]
  cases hfirst : firstPlace sort before with
  | none => exact ⟨_, rfl, hd.use hassigned hname (hdescribed hfirst)⟩
  | some first => exact ⟨_, rfl, Refusal.reports_mk rfl rfl⟩

theorem assign (hd : d.Tells described name? before) {fields : Fields R}
    {types : List (String × FieldType)} (hfields : fields.Fit described types) {key : Key}
    {value : Literal} (hname : name? (.set key value) = none) :
    Answers (assignmentObjection? types before key value) span
      (Tells described name? (before ++ [⟨.set key value, span⟩]))
      (d.assign fields key value span) := by
  have htells : ∀ f : R → R,
      described (before ++ [⟨.set key value, span⟩]) = f (described before) →
      (({ d with assigned := d.assigned ++ [(key, span)] } : Draft R).modify f).Tells described
        name? (before ++ [⟨.set key value, span⟩]) := by
    intro f hdescribed
    refine ⟨?_, ?_, ?_⟩
    · rw [hdescribed, ← hd.record]
      rfl
    · rw [places_concat, ← hd.assigned]
      rfl
    · rw [places_concat, hname]
      exact hd.used.trans (List.append_nil _).symm
  rw [assignmentObjection?, Draft.assign, hd.assigned, lookup_places]
  by_cases hsignature : key ∈ signatureKeys
  · rw [if_pos hsignature, if_pos hsignature]
    exact ⟨_, rfl, Refusal.reports_mk rfl rfl⟩
  rw [if_neg hsignature, if_neg hsignature]
  cases hfirst : firstPlace (fun c => c.assignment?.map (·.1) = some key) before with
  | some first => exact ⟨_, rfl, Refusal.reports_mk rfl rfl⟩
  | none =>
      rw [← hd.assigned]
      rcases find?_forall₂ hfields.known key with ⟨hknown, htypes, hne⟩ |
        ⟨e, t, hknown, htypes, rfl, hfits⟩
      · simp only [hknown, htypes]
        exact ⟨_, rfl, htells _ (hfields.other before key value span hne)⟩
      · have hanswer := hfits before value span (said_valueFor_eq_nil hfirst)
        simp only [hknown, htypes]
        cases hobjection : t.2.objection? value with
        | none =>
            rw [hobjection] at hanswer
            obtain ⟨update, hconvert, hdescribed⟩ := hanswer
            rw [hconvert]
            exact ⟨_, rfl, htells update hdescribed⟩
        | some o =>
            rw [hobjection] at hanswer
            obtain ⟨misfit, hconvert, hcode, hearlier⟩ := hanswer
            rw [hconvert]
            exact ⟨_, rfl, Refusal.reports_mk hcode hearlier⟩

end Draft.Tells

end CardLore
