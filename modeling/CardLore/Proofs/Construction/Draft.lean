import CardLore.Proofs.Writing.Valid

namespace CardLore

theorem not_mem_of_nodup_append {α : Type} {before after : List α} {x : α}
    (h : (before ++ x :: after).Nodup) : x ∉ before :=
  fun hmem => (List.nodup_append.mp h).2.2 _ hmem _ List.mem_cons_self rfl

theorem lookup_eq_none_of_not_mem {α β : Type} [BEq α] [LawfulBEq α] {entries : List (α × β)} {k : α}
    (h : k ∉ entries.map (·.1)) : entries.lookup k = none := by
  rw [List.lookup_eq_none_iff]
  intro entry hentry
  rw [bne_iff_ne]
  rintro rfl
  exact h (List.mem_map_of_mem hentry)

theorem map_fst_append_subset {α β : Type} {entries : List (α × β)} {bound : List α}
    (h : entries.map (·.1) ⊆ bound) (k : α) (v : β) :
    (entries ++ [(k, v)]).map (·.1) ⊆ k :: bound := by
  rw [List.map_append]
  exact List.append_subset.mpr ⟨List.Subset.trans h (List.subset_cons_self _ _), List.cons_subset.mpr
    ⟨List.mem_cons_self, List.nil_subset _⟩⟩

theorem addKeyed_fresh {α : Type} {entries : List (Key × α)} {key : Key}
    (h : key ∉ entries.map (·.1)) (what : String) (value : α) (span : Span) :
    addKeyed entries what key value span = .ok (entries ++ [(key, value)]) := by
  rw [addKeyed, lookup_eq_none_of_not_mem h]
  rfl

-- Entries under distinct keys are collected one by one.
theorem foldlM_fresh {α : Type}
    {add : List (Key × α) → Located (Key × α) → Except Refusal (List (Key × α))}
    (hadd : ∀ entries e, e.value.1 ∉ entries.map (·.1) → add entries e = .ok (entries ++ [e.value]))
    {xs : List (Key × α)} (hxs : (xs.map (·.1)).Nodup) {located : List (Located (Key × α))}
    (h : located.map (·.value) = xs) : located.foldlM add [] = .ok xs := by
  have hsteps : ∀ (located : List (Located (Key × α))) before,
      ((before ++ located.map (·.value)).map (·.1)).Nodup →
      located.foldlM add before = .ok (before ++ located.map (·.value)) := by
    intro located
    induction located with
    | nil =>
        intro before _
        rw [List.map_nil, List.append_nil]
        rfl
    | cons e located ih =>
        intro before hnodup
        have hassoc : before ++ (e :: located).map (·.value) =
            (before ++ [e.value]) ++ located.map (·.value) := by
          rw [List.map_cons, List.append_assoc, List.singleton_append]
        have hfresh : e.value.1 ∉ before.map (·.1) := by
          rw [List.map_append, List.map_cons, List.map_cons] at hnodup
          exact not_mem_of_nodup_append hnodup
        rw [hassoc] at hnodup ⊢
        rw [List.foldlM_cons, hadd before e hfresh]
        exact ih (before ++ [e.value]) hnodup
  rw [← h] at hxs ⊢
  exact hsteps located [] hxs

theorem Quantity.ofKeyword?_keyword (q : Quantity) : ofKeyword? q.keyword = some q := by
  cases q <;> rfl

structure Outline (R : Type) where
  record : R
  assigned : List Key
  used : List String

structure Draft.Within {R : Type} (d : Draft R) (o : Outline R) : Prop where
  record : d.record = o.record
  assigned : d.assigned.map (·.1) ⊆ o.assigned
  used : d.used.map (·.1) ⊆ o.used

-- Statements with these clauses lead from the outline `o` to the outline `o'`.
def Builds {R : Type} (add : Draft R → Statement → Except Refusal (Draft R)) (clauses : List Clause)
    (o o' : Outline R) : Prop :=
  ∀ (statements : List Statement) (d : Draft R), statements.map (·.value) = clauses → d.Within o →
    ∃ d', statements.foldlM add d = .ok d' ∧ d'.Within o'

namespace Builds

variable {R α : Type} {add : Draft R → Statement → Except Refusal (Draft R)} {o o' : Outline R}

theorem nil : Builds add [] o o := by
  intro statements d hs hd
  obtain rfl := List.map_eq_nil_iff.mp hs
  exact ⟨d, rfl, hd⟩

theorem append {cs cs' : List Clause} {mid : Outline R} (h : Builds add cs o mid)
    (h' : Builds add cs' mid o') : Builds add (cs ++ cs') o o' := by
  intro statements d hs hd
  obtain ⟨first, second, rfl, hfirst, hsecond⟩ := List.map_eq_append_iff.mp hs
  obtain ⟨d', hfold, hd'⟩ := h first d hfirst hd
  obtain ⟨d'', hfold', hd''⟩ := h' second d' hsecond hd'
  refine ⟨d'', ?_, hd''⟩
  rw [List.foldlM_append, hfold]
  exact hfold'

theorem widen {cs : List Clause} {record : R} {assigned assigned' : List Key}
    {used used' : List String} (h : Builds add cs o ⟨record, assigned, used⟩)
    (hassigned : assigned ⊆ assigned') (hused : used ⊆ used') :
    Builds add cs o ⟨record, assigned', used'⟩ := by
  intro statements d hs hd
  obtain ⟨d', hfold, hd'⟩ := h statements d hs hd
  exact ⟨d', hfold, hd'.record, List.Subset.trans hd'.assigned hassigned,
    List.Subset.trans hd'.used hused⟩

theorem keep {record record' : R} {assigned assigned' : List Key} {used used' : List String}
    (h : record = record') (hassigned : assigned ⊆ assigned') (hused : used ⊆ used') :
    Builds add [] ⟨record, assigned, used⟩ ⟨record', assigned', used'⟩ := by
  subst h
  exact nil.widen hassigned hused

theorem single {c : Clause}
    (h : ∀ (d : Draft R) span, d.Within o → ∃ d', add d ⟨c, span⟩ = .ok d' ∧ d'.Within o') :
    Builds add [c] o o' := by
  intro statements d hs hd
  obtain ⟨⟨value, span⟩, rfl, rfl⟩ := List.map_eq_singleton_iff.mp hs
  obtain ⟨d', hadd, hd'⟩ := h d span hd
  refine ⟨d', ?_, hd'⟩
  rw [List.foldlM_cons, hadd]
  rfl

theorem cons {c : Clause} {cs : List Clause} {mid : Outline R} (h : Builds add [c] o mid)
    (h' : Builds add cs mid o') : Builds add (c :: cs) o o' :=
  append h h'

-- Clauses for each item, given what those of one item do behind the ones before it.
theorem flatMap {f : α → List Clause} (outline : List α → Outline R) {xs : List α}
    (h : ∀ before x after, xs = before ++ x :: after →
      Builds add (f x) (outline before) (outline (before ++ [x]))) :
    Builds add (xs.flatMap f) (outline []) (outline xs) := by
  have hsteps : ∀ after before, xs = before ++ after →
      Builds add (after.flatMap f) (outline before) (outline xs) := by
    intro after
    induction after with
    | nil =>
        intro before hxs
        rw [hxs, List.append_nil]
        exact nil
    | cons x after ih =>
        intro before hxs
        exact append (h before x after hxs) (ih (before ++ [x]) (by rw [hxs, List.append_assoc]; rfl))
  exact hsteps xs [] rfl

theorem list {f : α → Clause} (outline : List α → Outline R) {xs : List α}
    (h : ∀ before x after, xs = before ++ x :: after →
      Builds add [f x] (outline before) (outline (before ++ [x]))) :
    Builds add (xs.map f) (outline []) (outline xs) := by
  rw [List.map_eq_flatMap]
  exact flatMap outline h

-- The same for clauses that only fill one field of the record.
theorem items {f : α → Clause} (set : List α → R → R) {record : R} {assigned : List Key}
    {used : List String} {xs : List α} (hnil : set [] record = record)
    (h : ∀ before x after, xs = before ++ x :: after →
      Builds add [f x] ⟨set before record, assigned, used⟩
        ⟨set (before ++ [x]) record, assigned, used⟩) :
    Builds add (xs.map f) ⟨record, assigned, used⟩ ⟨set xs record, assigned, used⟩ := by
  have hlist := list (fun before => ⟨set before record, assigned, used⟩) h
  rwa [hnil] at hlist

theorem option {f : α → Clause} (set : Option α → R → R) {record : R} {assigned assigned' : List Key}
    {used used' : List String} (hnone : set none record = record) (hassigned : assigned ⊆ assigned')
    (hused : used ⊆ used')
    (h : ∀ x, Builds add [f x] ⟨record, assigned, used⟩ ⟨set (some x) record, assigned', used'⟩)
    (x : Option α) :
    Builds add (x.toList.map f) ⟨record, assigned, used⟩ ⟨set x record, assigned', used'⟩ := by
  cases x with
  | none => exact keep hnone.symm hassigned hused
  | some x => exact h x

theorem run {clauses : List Clause} {signature record : R} {assigned : List Key}
    {used : List String} {statements : List Statement} (hs : statements.map (·.value) = clauses)
    (h : Builds add clauses ⟨signature, [], []⟩ ⟨record, assigned, used⟩) :
    (do return (← statements.foldlM add (.ofRecord signature)).record) = Except.ok record := by
  have hstart : (Draft.ofRecord signature).Within ⟨signature, [], []⟩ :=
    ⟨rfl, List.nil_subset _, List.nil_subset _⟩
  obtain ⟨d, hfold, hd⟩ := h statements _ hs hstart
  rw [hfold]
  exact congrArg Except.ok hd.record

variable {record record' : R} {assigned : List Key} {used : List String} {c : Clause}

-- A clause that only changes the record.
theorem modify {f : R → R} (hadd : ∀ d span, add d ⟨c, span⟩ = .ok (d.modify f))
    (hf : f record = record') :
    Builds add [c] ⟨record, assigned, used⟩ ⟨record', assigned, used⟩ := by
  refine single fun d span hd => ⟨d.modify f, hadd d span, ?_, hd.assigned, hd.used⟩
  rw [← hf]
  exact congrArg f hd.record

-- A clause that may be refused for what the record holds already.
theorem modifyM (part : R → Span → Except Refusal α) (f : α → R → R) {value : α}
    (hadd : ∀ d span, add d ⟨c, span⟩ = do
      let v ← part d.record span
      return d.modify (f v))
    (hpart : ∀ span, part record span = .ok value) (hf : f value record = record') :
    Builds add [c] ⟨record, assigned, used⟩ ⟨record', assigned, used⟩ := by
  refine single fun d span hd => ⟨d.modify (f value), ?_, ?_, hd.assigned, hd.used⟩
  · rw [hadd, hd.record, hpart]
    rfl
  · rw [← hf]
    exact congrArg (f value) hd.record

-- A clause that may appear once.
theorem reserve {kind : Kind} {name : String} {f : R → R}
    (hadd : ∀ d span, add d ⟨c, span⟩ = do
      let d ← d.reserve kind name span
      return d.modify f)
    (hfresh : name ∉ used) (hf : f record = record') :
    Builds add [c] ⟨record, assigned, used⟩ ⟨record', assigned, name :: used⟩ := by
  refine single fun d span hd => ?_
  refine ⟨(⟨d.record, d.assigned, d.used ++ [(name, span)]⟩ : Draft R).modify f, ?_, ?_, hd.assigned,
    map_fst_append_subset hd.used name span⟩
  · rw [hadd, Draft.reserve, lookup_eq_none_of_not_mem fun h => hfresh (hd.used h)]
    rfl
  · rw [← hf]
    exact congrArg f hd.record

theorem within_assigned {d : Draft R} (hd : d.Within ⟨record, assigned, used⟩) (key : Key)
    (span : Span) (f : R → R) :
    ((⟨d.record, d.assigned ++ [(key, span)], d.used⟩ : Draft R).modify f).Within
      ⟨f record, key :: assigned, used⟩ where
  record := congrArg f hd.record
  assigned := map_fst_append_subset hd.assigned key span
  used := hd.used

section

variable {fields : Fields R}
  (hadd : ∀ (d : Draft R) key value span, add d ⟨.set key value, span⟩ = d.assign fields key value span)

include hadd

theorem assign_known {key : Key} {value : Literal} {name : String}
    {convert : Literal → Except Misfit (R → R)} {f : R → R} (hkey : key ∉ signatureKeys)
    (hfresh : key ∉ assigned)
    (hfind : fields.known.find? (fun e => Text.ofString e.1 = key.text) = some (name, convert))
    (hconvert : convert value = .ok f) (hf : f record = record') :
    Builds add [.set key value] ⟨record, assigned, used⟩ ⟨record', key :: assigned, used⟩ := by
  subst hf
  refine single fun d span hd => ⟨_, ?_, within_assigned hd key span f⟩
  rw [hadd, Draft.assign, if_neg hkey, lookup_eq_none_of_not_mem fun h => hfresh (hd.assigned h)]
  simp only [hfind, hconvert]

theorem assign_unknown {key : Key} {value : Literal} (hkey : key ∉ signatureKeys)
    (hfresh : key ∉ assigned) (hunknown : ∀ e ∈ fields.known, Text.ofString e.1 ≠ key.text) :
    Builds add [.set key value] ⟨record, assigned, used⟩
      ⟨fields.addOther key value record, key :: assigned, used⟩ := by
  refine single fun d span hd => ⟨_, ?_, within_assigned hd key span (fields.addOther key value)⟩
  have hfind : fields.known.find? (fun e => Text.ofString e.1 = key.text) = none := by
    rw [List.find?_eq_none]
    exact fun e he => by simpa using hunknown e he
  rw [hadd, Draft.assign, if_neg hkey, lookup_eq_none_of_not_mem fun h => hfresh (hd.assigned h)]
  simp only [hfind]

-- A text that is assigned if it is there.
theorem assignText (set : Option Text → R → R) {key : String}
    {convert : Literal → Except Misfit (R → R)} {f : Text → R → R}
    (hkey : (key : Key) ∉ signatureKeys) (hfresh : (key : Key) ∉ assigned)
    (hfind : fields.known.find? (fun e => Text.ofString e.1 = Text.ofString key) =
      some (key, convert))
    (hconvert : ∀ t, convert (.string t) = .ok (f t)) (hnone : set none record = record)
    (hf : ∀ t, f t record = set (some t) record) (t : Option Text) :
    Builds add (assignText key t) ⟨record, assigned, used⟩ ⟨set t record, key :: assigned, used⟩ :=
  option set hnone (List.subset_cons_self _ _) (List.Subset.refl _)
    (fun t => assign_known hadd hkey hfresh hfind (hconvert t) (hf t)) t

-- The keys that a kind does not know, behind the ones that it knows.
theorem assignOthers (set : Others → R → R) {limit : Nat} {others : Others} (hnil : set [] record = record)
    (hset : ∀ before key value,
      fields.addOther key value (set before record) = set (before ++ [(key, value)]) record)
    (hknown : ∀ key ∈ assigned, ∃ e ∈ fields.known, Text.ofString e.1 = key.text)
    (h : ValidOthers limit fields others) :
    Builds add (assignOthers others) ⟨record, assigned, used⟩
      ⟨set others record, (others.map (·.1)).reverse ++ assigned, used⟩ := by
  have hlist : Builds add (others.map fun e => .set e.1 e.2)
      ⟨set [] record, ([].map fun e : Key × Literal => e.1).reverse ++ assigned, used⟩
      ⟨set others record, (others.map (·.1)).reverse ++ assigned, used⟩ := by
    refine list (fun before => ⟨set before record, (before.map (·.1)).reverse ++ assigned, used⟩) ?_
    rintro before ⟨key, value⟩ after rfl
    have hmem : (key, value) ∈ before ++ (key, value) :: after := List.mem_append_cons_self
    have hfresh : key ∉ (before.map (·.1)).reverse ++ assigned := by
      rw [List.mem_append, List.mem_reverse]
      rintro (hbefore | hassigned)
      · have hnodup := h.nodup
        rw [List.map_append, List.map_cons] at hnodup
        exact not_mem_of_nodup_append hnodup hbefore
      · obtain ⟨e, he, heq⟩ := hknown key hassigned
        exact h.unknown _ hmem e he heq
    rw [List.map_append, List.reverse_append, ← hset]
    exact assign_unknown hadd (h.unsigned _ hmem) hfresh (h.unknown _ hmem)
  rwa [hnil] at hlist

end

end Builds

end CardLore
