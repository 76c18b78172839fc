import CardLore.Proofs.Construction.Built
import CardLore.Proofs.Construction.Objection
import CardLore.Proofs.Construction.Places

namespace CardLore

-- A conversion gives what the type asks for, and refuses what the type objects to.
def Converts {β : Type} (read : Literal → Except Misfit β) (convert : Literal → Option β)
    (type : FieldType) : Prop :=
  ∀ value, match type.objection? value with
    | none => ∃ x, read value = .ok x ∧ convert value = some x
    | some o => ∃ misfit, read value = .error misfit ∧
        ∀ key, (misfit.offence key value).code = o.code ∧
          (misfit.offence key value).earlier? = o.earlier

theorem converts_text : Converts Literal.toText Literal.text? .text := by
  intro value
  cases value with
  | string t => exact ⟨t, rfl, rfl⟩
  | _ => exact ⟨_, rfl, fun _ => ⟨rfl, rfl⟩⟩

theorem converts_flag : Converts Literal.toBool Literal.flag? .flag := by
  intro value
  cases value with
  | bool b => exact ⟨b, rfl, rfl⟩
  | _ => exact ⟨_, rfl, fun _ => ⟨rfl, rfl⟩⟩

theorem converts_count : Converts Literal.toCount Literal.count? .count := by
  intro value
  cases value with
  | int n =>
      rw [FieldType.objection?, Literal.toCount, Literal.count?]
      by_cases hn : 0 ≤ n
      · rw [if_pos hn, if_pos hn, if_pos hn]
        exact ⟨n, rfl, rfl⟩
      · rw [if_neg hn, if_neg hn]
        exact ⟨_, rfl, fun _ => ⟨rfl, rfl⟩⟩
  | _ => exact ⟨_, rfl, fun _ => ⟨rfl, rfl⟩⟩

theorem Enumeration.find?_eq_none_iff {α : Type} (e : Enumeration α) (t : Text) :
    e.find? t = none ↔ Text.lower t ∉ e.words.map Text.ofString := by
  rw [Enumeration.find?, Option.map_eq_none_iff, List.find?_eq_none, Enumeration.words,
    List.map_map, List.mem_map, not_exists]
  exact forall_congr' fun entry => by simp

theorem converts_word {α : Type} (e : Enumeration α) :
    Converts (Literal.toMember e) (Literal.member? e) (.word e.words) := by
  intro value
  cases value with
  | string t =>
      by_cases hword : Text.lower t ∈ e.words.map Text.ofString
      · obtain ⟨member, hmember⟩ := Option.ne_none_iff_exists'.mp
          (mt (e.find?_eq_none_iff t).mp (not_not.mpr hword))
        have hread : Literal.toMember e (.string t) = .ok member := by
          rw [Literal.toMember, Literal.toText]
          simp only [bind, Except.bind, hmember]
        rw [FieldType.objection?, if_pos (List.contains_iff_mem.mpr hword), hread]
        exact ⟨member, rfl, hmember⟩
      · have hread : Literal.toMember e (.string t) = .error (.word t e.words) := by
          rw [Literal.toMember, Literal.toText]
          simp only [bind, Except.bind, (e.find?_eq_none_iff t).mpr hword]
        rw [FieldType.objection?, if_neg (mt List.contains_iff_mem.mp hword), hread]
        exact ⟨_, rfl, fun _ => ⟨rfl, rfl⟩⟩
  | _ => exact ⟨_, rfl, fun _ => ⟨rfl, rfl⟩⟩

theorem Fits.of {R β : Type} {described : List Statement → R} {name : String}
    {read : Literal → Except Misfit β} {convert : Literal → Option β} {type : FieldType}
    (hconvert : Converts read convert type) {f : β → R → R}
    (hdescribed : ∀ ss value x span, said (Clause.valueFor? name) ss = [] → convert value = some x →
      described (ss ++ [⟨.set name value, span⟩]) = f x (described ss)) :
    Fits described name (fun v => do
      let x ← read v
      return f x) type := by
  intro ss value span hfresh
  have hvalue := hconvert value
  dsimp only
  cases hobjection : type.objection? value with
  | none =>
      rw [hobjection] at hvalue
      obtain ⟨x, hread, hx⟩ := hvalue
      refine ⟨f x, ?_, hdescribed ss value x span hfresh hx⟩
      rw [hread]
      rfl
  | some o =>
      rw [hobjection] at hvalue
      obtain ⟨misfit, hread, hoffence⟩ := hvalue
      refine ⟨misfit, ?_, hoffence name⟩
      rw [hread]
      rfl

section

variable {σ τ : Type} {o : Option Objection} {span : Span}

-- A part is answered for, and the rest of the step goes on with it.
theorem Answers.bind {P : σ → Prop} {x : τ} {result : Except Refusal τ}
    (h : Answers o span (· = x) result) {f : τ → σ} (hf : P (f x)) :
    Answers o span P (do
      let v ← result
      return f v) := by
  cases o with
  | none =>
      obtain ⟨_, rfl, rfl⟩ := h
      exact ⟨_, rfl, hf⟩
  | some o =>
      obtain ⟨r, rfl, hr⟩ := h
      exact ⟨r, rfl, hr⟩

theorem Answers.mono {P Q : σ → Prop} {result : Except Refusal σ} (h : Answers o span P result)
    (himp : ∀ d, P d → Q d) : Answers o span Q result := by
  cases o with
  | none =>
      obtain ⟨d, hd, hP⟩ := h
      exact ⟨d, hd, himp d hP⟩
  | some o => exact h

theorem answers_unless_duplicate (offence : Offence) {earlier : List Key} {key : Key} {x : τ}
    {result : Except Refusal τ} (hcode : offence.code = "E203") (hearlier : offence.earlier? = none)
    (hmem : key ∈ earlier → result = .error ⟨offence, span⟩)
    (hnot : key ∉ earlier → result = .ok x) :
    Answers (duplicateObjection? earlier key) span (· = x) result := by
  rw [duplicateObjection?]
  by_cases h : key ∈ earlier
  · rw [if_pos h]
    exact ⟨_, hmem h, Refusal.reports_mk hcode hearlier⟩
  · rw [if_neg h]
    exact ⟨x, hnot h, rfl⟩

theorem isSome_lookup_iff {α β : Type} [BEq α] [LawfulBEq α] {entries : List (α × β)} {k : α} :
    (entries.lookup k).isSome ↔ k ∈ entries.map (·.1) := by
  rw [Option.isSome_iff_ne_none, ne_eq, not_iff_comm]
  exact ⟨lookup_eq_none_of_not_mem, not_mem_of_lookup_eq_none⟩

theorem addKeyed_answers {α : Type} (entries : List (Key × α)) (what : String) (key : Key)
    (value : α) :
    Answers (duplicateObjection? (entries.map (·.1)) key) span (· = entries ++ [(key, value)])
      (addKeyed entries what key value span) :=
  answers_unless_duplicate (.duplicateEntry what key) rfl rfl
    (fun h => if_pos (isSome_lookup_iff.mpr h)) fun h => if_neg (mt isSome_lookup_iff.mp h)

end

theorem firstPlace_congr {sort sort' : Clause → Bool} {before : List Statement}
    (h : ∀ s ∈ before, sort s.value = sort' s.value) :
    firstPlace sort before = firstPlace sort' before := by
  induction before with
  | nil => rfl
  | cons s before ih =>
      rw [List.forall_mem_cons] at h
      rw [firstPlace, firstPlace, List.find?_cons, List.find?_cons, h.1]
      cases sort' s.value with
      | true => rfl
      | false => exact ih h.2

theorem firstPlace_concat {α : Type} (sort : α → Bool) (before : List (Located α)) (s : Located α) :
    firstPlace sort (before ++ [s]) =
      (firstPlace sort before).or (if sort s.value then some s.span else none) := by
  rw [firstPlace, List.find?_append, firstPlace]
  cases before.find? fun t => sort t.value with
  | some t => rfl
  | none =>
      by_cases h : sort s.value = true
      · simp [h]
      · simp [h]

namespace Aspect

def name? : Clause → Option String
  | .induce .. => some "induce"
  | _ => none

theorem fields_fit (signature : Aspect) : fields.Fit (described signature) fieldTypes where
  known := by
    refine .cons ⟨rfl, Fits.of converts_text ?_⟩ (.cons ⟨rfl, Fits.of converts_text ?_⟩ .nil)
    all_goals
      intro ss value x span hfresh hx
      simp +decide [described, assigned?_set _ _ _ hfresh, hx, unknownAssignments_set]
  other := by
    intro ss key value span hne
    simp only [fieldTypes, List.forall_mem_cons] at hne
    simp [described, assigned?_set_ne, unknownAssignments_set, hne, Ne.symm, fields]

theorem addStatement_answers (signature : Aspect) (before : List Statement) (d : Draft Aspect)
    (s : Statement) (hd : d.Tells (described signature) name? before) :
    Answers (objection? before s) s.span (Draft.Tells (described signature) name? (before ++ [s]))
      (addStatement d s) := by
  obtain ⟨c, span⟩ := s
  cases c with
  | set key value => exact hd.assign (fields_fit signature) rfl
  | induce recipe chance =>
      refine hd.reserve (fun c => by cases c <;> rfl) rfl rfl fun hfirst => ?_
      have hnone := said_eq_nil_of_firstPlace (fun _ h => h) hfirst
      simp [described, assigned?, unknownAssignments, hnone]
  | xtrigger x =>
      refine ⟨_, rfl, hd.modify rfl rfl ?_⟩
      simp [described, assigned?, unknownAssignments]
  | _ => exact ⟨_, rfl, Refusal.reports_mk rfl rfl⟩

end Aspect

namespace Verb

theorem fields_fit (signature : Verb) : fields.Fit (described signature) [] where
  known := .nil
  other := by
    intro ss key value span _
    simp [described, fields]

theorem addStatement_answers (signature : Verb) (before : List Statement) (d : Draft Verb)
    (s : Statement) (hd : d.Tells (described signature) (fun _ => none) before) :
    Answers (objection? before s) s.span
      (Draft.Tells (described signature) (fun _ => none) (before ++ [s])) (addStatement d s) := by
  obtain ⟨c, span⟩ := s
  cases c with
  | set key value => exact hd.assign (fields_fit signature) rfl
  | _ => exact ⟨_, rfl, Refusal.reports_mk rfl rfl⟩

end Verb

namespace Recipe

def name? : Clause → Option String
  | .reference word _ => if word = "ending" then some "ending" else none
  | .slot none _ => some "slot"
  | _ => none

theorem name?_ending (c : Clause) :
    decide (name? c = some "ending") = (c.target? "ending").isSome := by
  cases c with
  | reference word target =>
      by_cases h : word = "ending"
      · simp [name?, h]
      · simp [name?, h]
  | slot verb => cases verb <;> rfl
  | _ => rfl

theorem name?_slot (c : Clause) : decide (name? c = some "slot") = c.ownSlot?.isSome := by
  cases c with
  | reference word target =>
      by_cases h : word = "ending"
      · simp [name?, h]
      · simp [name?, h]
  | slot verb => cases verb <;> rfl
  | _ => rfl

theorem fields_fit (signature : Recipe) : fields.Fit (described signature) fieldTypes where
  known := by
    refine .cons ⟨rfl, Fits.of converts_count ?_⟩ <| .cons ⟨rfl, Fits.of converts_count ?_⟩ <|
      .cons ⟨rfl, Fits.of converts_flag ?_⟩ <| .cons ⟨rfl, Fits.of converts_flag ?_⟩ <|
      .cons ⟨rfl, Fits.of converts_text ?_⟩ <| .cons ⟨rfl, Fits.of converts_text ?_⟩ <|
      .cons ⟨rfl, Fits.of (converts_word WarmupStyle.enumeration) ?_⟩ .nil
    all_goals
      intro ss value x span hfresh hx
      simp +decide [described, assigned?_set _ _ _ hfresh, hx, unknownAssignments_set]
  other := by
    intro ss key value span hne
    simp only [fieldTypes, List.forall_mem_cons] at hne
    simp [described, assigned?_set_ne, unknownAssignments_set, hne, Ne.symm, fields]

theorem objection?_reference (before : List Statement) {word : String} (h : word ≠ "ending")
    (target : Key) (span : Span) :
    objection? before ⟨.reference word target, span⟩ = some ⟨"E100", none⟩ := by
  rw [objection?]
  split <;> simp_all

theorem quantity_answers (signature : Recipe) {before : List Statement} {d : Draft Recipe}
    (hd : d.Tells (described signature) name? before) (word : String) (element : Key)
    (amount : Amount) (span : Span) :
    Answers (objection? before ⟨.quantity word element amount, span⟩) span
      (Draft.Tells (described signature) name? (before ++ [⟨.quantity word element amount, span⟩]))
      (addStatement d ⟨.quantity word element amount, span⟩) := by
  rw [objection?, addStatement]
  dsimp only
  cases hq : Quantity.ofKeyword? word with
  | none =>
      have hword : word ∉ ["effect", "aspect", "purge", "draw", "halt", "delete"] := by
        intro hword
        simp only [List.mem_cons, List.not_mem_nil, or_false] at hword
        rcases hword with rfl | rfl | rfl | rfl | rfl | rfl <;> cases hq
      rw [if_neg hword]
      exact ⟨_, rfl, Refusal.reports_mk rfl rfl⟩
  | some q =>
      obtain rfl : q.keyword = word := by simpa using List.find?_some hq
      have hword : q.keyword ∈ ["effect", "aspect", "purge", "draw", "halt", "delete"] := by
        cases q <;> decide
      have hentries : q.entries d.record = said (Clause.entryOf? q.keyword) before := by
        rw [hd.record]
        cases q <;> rfl
      rw [if_pos hword, ← hentries]
      refine (addKeyed_answers _ _ element amount).bind (hd.modify rfl rfl ?_)
      rw [hentries]
      cases q <;>
        simp +decide [described, assigned?, unknownAssignments, Quantity.withEntries,
          Quantity.keyword]

theorem addStatement_answers (signature : Recipe) (before : List Statement) (d : Draft Recipe)
    (s : Statement) (hd : d.Tells (described signature) name? before) :
    Answers (objection? before s) s.span (Draft.Tells (described signature) name? (before ++ [s]))
      (addStatement d s) := by
  obtain ⟨c, span⟩ := s
  cases c with
  | set key value => exact hd.assign (fields_fit signature) rfl
  | quantity word element amount => exact quantity_answers signature hd word element amount span
  | reference word target =>
      by_cases hword : word = "ending"
      · subst hword
        refine hd.reserve name?_ending rfl rfl fun hfirst => ?_
        have hnone := said_eq_nil_of_firstPlace (fun _ h => h) hfirst
        simp [described, assigned?, unknownAssignments, hnone]
      · rw [objection?_reference before hword, addStatement_reference d hword]
        exact ⟨_, rfl, Refusal.reports_mk rfl rfl⟩
  | slot verb slot =>
      cases verb with
      | some verb => exact ⟨_, rfl, Refusal.reports_mk rfl rfl⟩
      | none =>
          refine hd.reserve name?_slot rfl rfl fun hfirst => ?_
          have hnone := said_eq_nil_of_firstPlace (fun _ h => h) hfirst
          simp [described, assigned?, unknownAssignments, hnone]
  | require requirement =>
      refine ⟨_, rfl, hd.modify rfl rfl ?_⟩
      simp [described, assigned?, unknownAssignments]
  | mutate mutation =>
      refine ⟨_, rfl, hd.modify rfl rfl ?_⟩
      simp [described, assigned?, unknownAssignments]
  | branch branch =>
      refine ⟨_, rfl, hd.modify rfl rfl ?_⟩
      simp [described, assigned?, unknownAssignments]
  | _ => exact ⟨_, rfl, Refusal.reports_mk rfl rfl⟩

end Recipe

namespace Legacy

def name? : Clause → Option String
  | .reference word _ => if word = "verb" ∨ word = "ending" then some word else none
  | _ => none

theorem name?_eq {word : String} (hword : word = "verb" ∨ word = "ending") (c : Clause) :
    decide (name? c = some word) = (c.target? word).isSome := by
  cases c with
  | reference w target =>
      by_cases h : w = word
      · subst h
        simp [name?, hword]
      · by_cases hw : w = "verb" ∨ w = "ending"
        · simp [name?, hw, h]
        · simp [name?, hw, h]
  | _ => rfl

theorem fields_fit (signature : Legacy) : fields.Fit (described signature) fieldTypes where
  known := by
    refine .cons ⟨rfl, Fits.of converts_text ?_⟩ <| .cons ⟨rfl, Fits.of converts_flag ?_⟩ <|
      .cons ⟨rfl, Fits.of converts_flag ?_⟩ .nil
    all_goals
      intro ss value x span hfresh hx
      simp +decide [described, assigned?_set _ _ _ hfresh, hx, unknownAssignments_set]
  other := by
    intro ss key value span hne
    simp only [fieldTypes, List.forall_mem_cons] at hne
    simp [described, assigned?_set_ne, unknownAssignments_set, hne, Ne.symm, fields]

theorem objection?_reference (before : List Statement) {word : String}
    (h : word ∉ ["verb", "ending", "status", "exclude"]) (target : Key) (span : Span) :
    objection? before ⟨.reference word target, span⟩ = some ⟨"E100", none⟩ := by
  rw [objection?]
  split <;> simp_all

theorem addStatus_answers (elements : List Key) (target : Key) (span : Span) :
    Answers ((duplicateObjection? elements target).or
        (if elements.length = 4 then some ⟨"E211", none⟩ else none)) span
      (· = elements ++ [target]) (addStatus elements target span) := by
  rw [addStatus, duplicateObjection?]
  by_cases hmem : target ∈ elements
  · rw [if_pos hmem, if_pos hmem]
    exact ⟨_, rfl, Refusal.reports_mk rfl rfl⟩
  · rw [if_neg hmem, if_neg hmem]
    by_cases hlength : elements.length = maxStatusElements
    · rw [if_pos hlength, if_pos (show elements.length = 4 from hlength)]
      exact ⟨_, rfl, Refusal.reports_mk rfl rfl⟩
    · rw [if_neg hlength, if_neg (show ¬ elements.length = 4 from hlength)]
      exact ⟨_, rfl, rfl⟩

theorem addExcluded_answers (excluded : List Key) (target : Key) (span : Span) :
    Answers (duplicateObjection? excluded target) span (· = excluded ++ [target])
      (addExcluded excluded target span) :=
  answers_unless_duplicate (.duplicateEntry "excluded legacy" target) rfl rfl (fun h => if_pos h)
    fun h => if_neg h

theorem addStatement_answers (signature : Legacy) (before : List Statement) (d : Draft Legacy)
    (s : Statement) (hd : d.Tells (described signature) name? before) :
    Answers (objection? before s) s.span (Draft.Tells (described signature) name? (before ++ [s]))
      (addStatement d s) := by
  obtain ⟨c, span⟩ := s
  cases c with
  | set key value => exact hd.assign (fields_fit signature) rfl
  | reference word target =>
      by_cases hword : word ∈ ["verb", "ending", "status", "exclude"]
      · simp only [List.mem_cons, List.not_mem_nil, or_false] at hword
        rcases hword with rfl | rfl | rfl | rfl
        · refine hd.reserve (name?_eq (.inl rfl)) rfl rfl fun hfirst => ?_
          have hnone := said_eq_nil_of_firstPlace (fun _ h => h) hfirst
          simp [described, assigned?, unknownAssignments, hnone]
        · refine hd.reserve (name?_eq (.inr rfl)) rfl rfl fun hfirst => ?_
          have hnone := said_eq_nil_of_firstPlace (fun _ h => h) hfirst
          simp [described, assigned?, unknownAssignments, hnone]
        · rw [addStatement, hd.record]
          refine (addStatus_answers _ target span).bind (hd.modify rfl rfl ?_)
          simp [described, assigned?, unknownAssignments]
        · rw [addStatement, hd.record]
          refine (addExcluded_answers _ target span).bind (hd.modify rfl rfl ?_)
          simp [described, assigned?, unknownAssignments]
      · rw [objection?_reference before hword, addStatement_reference d hword]
        exact ⟨_, rfl, Refusal.reports_mk rfl rfl⟩
  | startingCard card amount =>
      rw [addStatement, hd.record]
      refine (addKeyed_answers _ _ card amount).bind (hd.modify rfl rfl ?_)
      simp [described, assigned?, unknownAssignments]
  | _ => exact ⟨_, rfl, Refusal.reports_mk rfl rfl⟩

end Legacy

namespace Deck

theorem described_concat (signature : Deck) {before : List (Located DeckEntry)}
    {e : Located DeckEntry}
    (h : e.value.isDefault = true → firstPlace (·.isDefault) before = none) :
    described signature (before ++ [e]) = (described signature before).addCard e.value := by
  cases he : e.value.isDefault with
  | false => simp [described, addCard, he]
  | true =>
      have hnone := Option.map_eq_none_iff.mp (h he)
      simp [described, addCard, he, hnone]

theorem addEntry_answers (signature : Deck) (before : List (Located DeckEntry)) (p : Progress)
    (e : Located DeckEntry)
    (hp : p.deck = described signature before ∧ p.defaultAt = firstPlace (·.isDefault) before) :
    Answers (objection? before e) e.span
      (fun p' => p'.deck = described signature (before ++ [e]) ∧
        p'.defaultAt = firstPlace (·.isDefault) (before ++ [e])) (addEntry p e) := by
  obtain ⟨hdeck, hdefault⟩ := hp
  rw [objection?, addEntry, hdefault, hdeck, firstPlace_concat]
  cases he : e.value.isDefault with
  | false =>
      refine ⟨_, rfl, (described_concat signature fun h => ?_).symm, Option.or_none.symm⟩
      cases he.symm.trans h
  | true =>
      rw [if_pos rfl, if_pos rfl, repetitionObjection?]
      cases hfirst : firstPlace (·.isDefault) before with
      | none => exact ⟨_, rfl, (described_concat signature fun _ => hfirst).symm, rfl⟩
      | some first => exact ⟨_, rfl, Refusal.reports_mk rfl rfl⟩

end Deck

namespace Card

def name? : Clause → Option String
  | .induce .. => some "induce"
  | .unique none => some "unique"
  | .unique (some _) => some "group"
  | _ => none

-- Of the two forms of `unique` at most one was used.
def OneForm (before : List Statement) : Prop :=
  firstPlace (fun c => c.uniqueness? = some none) before = none ∨
    firstPlace (fun c => c.uniqueness?.join.isSome) before = none

theorem OneForm.concat {before : List Statement} (h : OneForm before) {c : Clause}
    (hc : c.uniqueness? = none) (span : Span) : OneForm (before ++ [⟨c, span⟩]) := by
  rw [OneForm, firstPlace_concat, firstPlace_concat]
  simpa [-Clause.uniqueness?, hc, OneForm] using h

theorem OneForm.singleton {before : List Statement}
    (h : firstPlace (·.uniqueness?.isSome) before = none) (c : Clause) (span : Span) :
    OneForm (before ++ [⟨c, span⟩]) := by
  rw [firstPlace, Option.map_eq_none_iff, List.find?_eq_none] at h
  have hnone : ∀ sort : Clause → Bool, (∀ c, sort c = true → c.uniqueness?.isSome) →
      firstPlace sort before = none := by
    intro sort hsort
    rw [firstPlace, Option.map_eq_none_iff, List.find?_eq_none]
    exact fun s hs hc => h s hs (hsort s.value hc)
  rw [OneForm, firstPlace_concat, firstPlace_concat, hnone _ ?_, hnone _ ?_]
  · cases c.uniqueness? with
    | none => simp
    | some group => cases group <;> simp
  · intro c hc
    cases hunique : c.uniqueness? with
    | none => simp [-Clause.uniqueness?, hunique] at hc
    | some group => rfl
  · intro c hc
    rw [of_decide_eq_true hc]
    rfl

-- So the first `unique` of any form is the first one of the form that was used.
theorem OneForm.firstPlace_eq {before : List Statement} (h : OneForm before) :
    firstPlace (fun c => c.uniqueness? = some none) before = none ∧
        firstPlace (·.uniqueness?.isSome) before =
          firstPlace (fun c => c.uniqueness?.join.isSome) before ∨
      firstPlace (fun c => c.uniqueness?.join.isSome) before = none ∧
        firstPlace (·.uniqueness?.isSome) before =
          firstPlace (fun c => c.uniqueness? = some none) before := by
  refine h.imp (fun hnone => ⟨hnone, ?_⟩) fun hnone => ⟨hnone, ?_⟩
  all_goals
    rw [firstPlace, Option.map_eq_none_iff, List.find?_eq_none] at hnone
    refine firstPlace_congr fun s hs => ?_
    have hs := hnone s hs
    cases hc : s.value.uniqueness? with
    | none => rfl
    | some group => cases group <;> simp_all [-Clause.uniqueness?]

theorem fields_fit (signature : Card) (aspects : List (Located (Key × Int))) :
    fields.Fit (described signature aspects) fieldTypes where
  known := by
    refine .cons ⟨rfl, Fits.of converts_text ?_⟩ <| .cons ⟨rfl, Fits.of converts_text ?_⟩ <|
      .cons ⟨rfl, Fits.of converts_flag ?_⟩ .nil
    all_goals
      intro ss value x span hfresh hx
      simp +decide [described, assigned?_set _ _ _ hfresh, hx, unknownAssignments_set]
  other := by
    intro ss key value span hne
    simp only [fieldTypes, List.forall_mem_cons] at hne
    simp [described, assigned?_set_ne, unknownAssignments_set, hne, Ne.symm, fields]

theorem name?_induce (c : Clause) : decide (name? c = some "induce") = c.induction?.isSome := by
  cases c with
  | unique group => cases group <;> rfl
  | _ => rfl

theorem name?_unique (c : Clause) :
    decide (name? c = some "unique") = decide (c.uniqueness? = some none) := by
  cases c with
  | unique group => cases group <;> rfl
  | _ => rfl

theorem name?_group (c : Clause) :
    decide (name? c = some "group") = c.uniqueness?.join.isSome := by
  cases c with
  | unique group => cases group <;> rfl
  | _ => rfl

theorem reserveUnique_answers {d : Draft Card} {own other : String} {twice : Span → Offence}
    {first? : Option Span} {span : Span} {f : Card → Card} {P : Draft Card → Prop}
    (hfirst : d.used.lookup own = none ∧ first? = d.used.lookup other ∨
      d.used.lookup other = none ∧ first? = d.used.lookup own)
    (hcode : ∀ first, (twice first).code = "E204")
    (hearlier : ∀ first, (twice first).earlier? = some first)
    (hP : first? = none → P (({ d with used := d.used ++ [(own, span)] } : Draft Card).modify f)) :
    Answers (first?.map fun first => ⟨"E204", some first⟩) span P (do
      let d ← reserveUnique d own other twice span
      return d.modify f) := by
  rw [reserveUnique]
  rcases hfirst with ⟨hown, rfl⟩ | ⟨hother, rfl⟩
  · rw [hown]
    cases hother : d.used.lookup other with
    | none => exact ⟨_, rfl, hP hother⟩
    | some first => exact ⟨_, rfl, Refusal.reports_mk rfl rfl⟩
  · rw [hother]
    cases hown : d.used.lookup own with
    | none => exact ⟨_, rfl, hP hown⟩
    | some first => exact ⟨_, rfl, Refusal.reports_mk (hcode first) (hearlier first)⟩

structure Tells (signature : Card) (aspects : List (Located (Key × Int))) (before : List Statement)
    (d : Draft Card) : Prop where
  draft : d.Tells (described signature aspects) name? before
  oneForm : OneForm before

theorem unique_answers (signature : Card) (aspects : List (Located (Key × Int)))
    {before : List Statement} {d : Draft Card} (hd : Tells signature aspects before d)
    (group : Option Key) (span : Span) :
    Answers (repetitionObjection? "E204" (·.uniqueness?.isSome) before) span
      (Tells signature aspects (before ++ [⟨.unique group, span⟩]))
      (addStatement d ⟨.unique group, span⟩) := by
  have hunique : d.used.lookup "unique" =
      firstPlace (fun c => c.uniqueness? = some none) before := by
    rw [hd.draft.used, lookup_places]
    simp only [name?_unique]
  have hgroup : d.used.lookup "group" =
      firstPlace (fun c => c.uniqueness?.join.isSome) before := by
    rw [hd.draft.used, lookup_places]
    simp only [name?_group]
  have hfirst := hd.oneForm.firstPlace_eq
  rw [← hunique, ← hgroup] at hfirst
  cases group with
  | none =>
      refine reserveUnique_answers hfirst (fun _ => rfl) (fun _ => rfl) fun hfresh => ?_
      refine ⟨hd.draft.use rfl rfl ?_, .singleton hfresh _ _⟩
      simp [described, assigned?, unknownAssignments,
        said_eq_nil_of_firstPlace (fun _ h => h) hfresh]
  | some group =>
      refine reserveUnique_answers hfirst.symm (fun _ => rfl) (fun _ => rfl) fun hfresh => ?_
      refine ⟨hd.draft.use rfl rfl ?_, .singleton hfresh _ _⟩
      simp [described, assigned?, unknownAssignments,
        said_eq_nil_of_firstPlace (fun _ h => h) hfresh]

theorem addStatement_answers (signature : Card) (aspects : List (Located (Key × Int)))
    (before : List Statement) (d : Draft Card) (s : Statement)
    (hd : Tells signature aspects before d) :
    Answers (objection? before s) s.span (Tells signature aspects (before ++ [s]))
      (addStatement d s) := by
  obtain ⟨c, span⟩ := s
  cases c with
  | set key value =>
      exact (hd.draft.assign (fields_fit signature aspects) rfl).mono
        fun _ hd' => ⟨hd', hd.oneForm.concat rfl span⟩
  | induce recipe chance =>
      refine (hd.draft.reserve name?_induce rfl rfl fun hfirst => ?_).mono
        fun _ hd' => ⟨hd', hd.oneForm.concat rfl span⟩
      have hnone := said_eq_nil_of_firstPlace (fun _ h => h) hfirst
      simp [described, assigned?, unknownAssignments, hnone]
  | unique group => exact unique_answers signature aspects hd group span
  | slot verb slot =>
      cases verb with
      | none => exact ⟨_, rfl, Refusal.reports_mk rfl rfl⟩
      | some verb =>
          refine ⟨_, rfl, hd.draft.modify rfl rfl ?_, hd.oneForm.concat rfl span⟩
          simp [described, assigned?, unknownAssignments, grouped_concat]
  | xtrigger x =>
      refine ⟨_, rfl, hd.draft.modify rfl rfl ?_, hd.oneForm.concat rfl span⟩
      simp [described, assigned?, unknownAssignments]
  | _ => exact ⟨_, rfl, Refusal.reports_mk rfl rfl⟩

theorem addAspect_answers (before : List (Located (Key × Int))) (aspects : List (Key × Int))
    (a : Located (Key × Int)) (h : aspects = before.map (·.value)) :
    Answers (aspectObjection? before a) a.span (· = (before ++ [a]).map (·.value))
      (addAspect aspects a) := by
  subst h
  have hmem : ((before.map (·.value)).lookup a.value.1).isSome ↔
      a.value.1 ∈ before.map (·.value.1) := by
    rw [isSome_lookup_iff, List.map_map]
    rfl
  refine answers_unless_duplicate (.duplicateAspect a.value.1) rfl rfl
    (fun h => if_pos (hmem.mpr h)) fun h => ?_
  rw [addAspect, if_neg (mt hmem.mp h), List.map_append]
  rfl

end Card

section

variable {α R : Type} {objection? : List (Located α) → Located α → Option Objection}
  {items : List (Located α)} {result : Except Refusal R} {record : R}

-- A body without an offence gives the record, and one with an offence is refused for the first.
def Settles (objection? : List (Located α) → Located α → Option Objection)
    (items : List (Located α)) (result : Except Refusal R) (record : R) : Prop :=
  (¬ Offensive objection? items ∧ result = .ok record) ∨
    (Offensive objection? items ∧ ∃ r, result = .error r ∧ r.Blames objection? items)

-- The construction is refused if and only if some item is offensive, and then for the first one.
structure RefusesFirst (objection? : List (Located α) → Located α → Option Objection)
    (items : List (Located α)) (result : Except Refusal R) : Prop where
  refused : (∃ r, result = .error r) ↔ Offensive objection? items
  blames : ∀ r, result = .error r → r.Blames objection? items

theorem RefusesFirst.of_blames (hoffensive : Offensive objection? items) {r : Refusal}
    (hr : result = .error r) (hblames : r.Blames objection? items) :
    RefusesFirst objection? items result where
  refused := ⟨fun _ => hoffensive, fun _ => ⟨r, hr⟩⟩
  blames := by
    intro r' hr'
    cases hr.symm.trans hr'
    exact hblames

theorem Settles.refusesFirst (h : Settles objection? items result record) :
    RefusesFirst objection? items result := by
  rcases h with ⟨hclean, rfl⟩ | ⟨hoffensive, r, hr, hblames⟩
  · refine ⟨⟨?_, fun h => absurd h hclean⟩, ?_⟩
    · rintro ⟨r, hr⟩
      cases hr
    · intro r hr
      cases hr
  · exact .of_blames hoffensive hr hblames

theorem Settles.clean_of_ok {r : R} (h : Settles objection? items result record)
    (hr : result = .ok r) : ¬ Offensive objection? items ∧ r = record := by
  subst hr
  rcases h with ⟨hclean, hr⟩ | ⟨-, refusal, hr, -⟩
  · cases hr
    exact ⟨hclean, rfl⟩
  · cases hr

theorem settles_of_answers {σ : Type} {add : σ → Located α → Except Refusal σ}
    {I : List (Located α) → σ → Prop} {finish : σ → R} {described : List (Located α) → R}
    {start : σ}
    (hadd : ∀ before d s, I before d →
      Answers (objection? before s) s.span (I (before ++ [s])) (add d s))
    (hstart : I [] start) (hfinish : ∀ ss d, I ss d → finish d = described ss)
    (items : List (Located α)) :
    Settles objection? items (do return finish (← items.foldlM add start)) (described items) := by
  rcases foldlM_answers hadd hstart items with ⟨hclean, d, hd, hI⟩ | ⟨hoffensive, r, hr, hblames⟩
  · refine .inl ⟨hclean, ?_⟩
    rw [hd, ← hfinish items d hI]
    rfl
  · refine .inr ⟨hoffensive, r, ?_, hblames⟩
    rw [hr]
    rfl

end

-- A signature is the record that an empty body describes.
theorem Aspect.build_settles (signature : Aspect) (h : signature = described signature [])
    (ss : List Statement) : Settles objection? ss (build signature ss) (described signature ss) :=
  settles_of_answers (addStatement_answers signature) (.ofRecord h) (fun _ _ hd => hd.record) ss

theorem Verb.build_settles (signature : Verb) (h : signature = described signature [])
    (ss : List Statement) : Settles objection? ss (build signature ss) (described signature ss) :=
  settles_of_answers (addStatement_answers signature) (.ofRecord h) (fun _ _ hd => hd.record) ss

theorem Recipe.build_settles (signature : Recipe) (h : signature = described signature [])
    (ss : List Statement) : Settles objection? ss (build signature ss) (described signature ss) :=
  settles_of_answers (addStatement_answers signature) (.ofRecord h) (fun _ _ hd => hd.record) ss

theorem Legacy.build_settles (signature : Legacy) (h : signature = described signature [])
    (ss : List Statement) : Settles objection? ss (build signature ss) (described signature ss) :=
  settles_of_answers (addStatement_answers signature) (.ofRecord h) (fun _ _ hd => hd.record) ss

theorem Deck.build_settles (signature : Deck) (h : signature = described signature [])
    (entries : List (Located DeckEntry)) :
    Settles objection? entries (build signature entries) (described signature entries) :=
  settles_of_answers (addEntry_answers signature) ⟨h, rfl⟩ (fun _ _ hp => hp.1) entries

-- The aspects of a card come before its statements.
theorem Card.build_settles (signature : Card) (h : signature = described signature [] [])
    (aspects : List (Located (Key × Int))) (ss : List Statement) :
    (Offensive aspectObjection? aspects ∧
        ∃ r, build signature aspects ss = .error r ∧ r.Blames aspectObjection? aspects) ∨
      (¬ Offensive aspectObjection? aspects ∧
        Settles objection? ss (build signature aspects ss) (described signature aspects ss)) := by
  have hstart : { signature with aspects := aspects.map (·.value) } =
      described signature aspects [] := by
    rw [h]
    rfl
  have hnone : ([] : List (Key × Int)) = ([] : List (Located (Key × Int))).map (·.value) := rfl
  rcases foldlM_answers addAspect_answers hnone aspects with
    ⟨hclean, as, has, rfl⟩ | ⟨hoffensive, r, hr, hblames⟩
  · refine .inr ⟨hclean, ?_⟩
    have hsettles := settles_of_answers (addStatement_answers signature aspects)
      ⟨.ofRecord hstart, .inl rfl⟩ (fun _ _ hd => hd.draft.record) ss
    rwa [build, has]
  · refine .inl ⟨hoffensive, r, ?_, hblames⟩
    rw [build, hr]
    rfl

-- Every construction is refused if and only if some statement is offensive, given the ones before
-- it, and then for the first such statement. A card is refused for a repeated aspect of its
-- signature before any of its statements is looked at.
theorem build_refuses_first_offence :
    (∀ id label description hidden decaysTo ss,
      RefusesFirst Aspect.objection? ss
        (Aspect.build { id, label, description, hidden, decaysTo } ss)) ∧
    (∀ id label description hidden decaysTo lifetime aspects ss,
      (Offensive Card.aspectObjection? aspects → RefusesFirst Card.aspectObjection? aspects
        (Card.build { id, label, description, hidden, decaysTo, lifetime } aspects ss)) ∧
      (¬ Offensive Card.aspectObjection? aspects → RefusesFirst Card.objection? ss
        (Card.build { id, label, description, hidden, decaysTo, lifetime } aspects ss))) ∧
    (∀ id label description slot ss,
      RefusesFirst Verb.objection? ss (Verb.build { id, label, description, slot } ss)) ∧
    (∀ id verb label description endDescription ss,
      RefusesFirst Recipe.objection? ss
        (Recipe.build { id, verb, label, description, endDescription } ss)) ∧
    (∀ id label description startDescription ss,
      RefusesFirst Legacy.objection? ss
        (Legacy.build { id, label, description, startDescription } ss)) ∧
    ∀ id label description entries,
      RefusesFirst Deck.objection? entries (Deck.build { id, label, description } entries) := by
  refine ⟨?aspect, ?card, ?verb, ?recipe, ?legacy, ?deck⟩
  case aspect =>
    intro id label description hidden decaysTo ss
    exact (Aspect.build_settles _ rfl ss).refusesFirst
  case card =>
    intro id label description hidden decaysTo lifetime aspects ss
    rcases Card.build_settles { id, label, description, hidden, decaysTo, lifetime } rfl aspects ss
      with ⟨hoffensive, r, hr, hblames⟩ | ⟨hclean, hsettles⟩
    · exact ⟨fun _ => .of_blames hoffensive hr hblames, fun hclean => absurd hoffensive hclean⟩
    · exact ⟨fun hoffensive => absurd hoffensive hclean, fun _ => hsettles.refusesFirst⟩
  case verb =>
    intro id label description slot ss
    exact (Verb.build_settles _ rfl ss).refusesFirst
  case recipe =>
    intro id verb label description endDescription ss
    exact (Recipe.build_settles _ rfl ss).refusesFirst
  case legacy =>
    intro id label description startDescription ss
    exact (Legacy.build_settles _ rfl ss).refusesFirst
  case deck =>
    intro id label description entries
    exact (Deck.build_settles _ rfl entries).refusesFirst

def lineSpan (line : Nat) : Span :=
  ⟨"a.crucible", line, 1, line, 10⟩

-- A card in a group that is to be unique as well. The slot without a verb comes too late.
def groupedUnique : List Statement :=
  [⟨.unique (some "tools"), lineSpan 1⟩, ⟨.set "icon" (.string "lamp"), lineSpan 2⟩,
    ⟨.unique none, lineSpan 3⟩, ⟨.slot none default, lineSpan 4⟩]

theorem build_refuses_first_offence_grouped_unique :
    ¬ Offensive Card.aspectObjection? [] ∧
      RefusesFirst Card.objection? groupedUnique
        (Card.build { id := "lamp", label := "Lamp" } [] groupedUnique) ∧
      ∃ r, Card.build { id := "lamp", label := "Lamp" } [] groupedUnique = .error r ∧
        r.diagnostic.code = "E204" ∧
        r.diagnostic.labels =
          [.primary (lineSpan 3), .secondary (lineSpan 1) "first set here"] := by
  have hclean := not_offensive_nil Card.aspectObjection?
  obtain ⟨-, hcard, -⟩ := build_refuses_first_offence
  exact ⟨hclean, (hcard _ _ _ _ _ _ [] groupedUnique).2 hclean, _, rfl, rfl, rfl⟩

end CardLore
