import CardLore.Proofs.Component.WellFormed
import CardLore.Proofs.Construction.Draft
import Mathlib.Data.List.Nodup

namespace CardLore

section

variable {ε σ α β : Type}

theorem bind_ok_iff {x : Except ε α} {f : α → Except ε β} {b : β} :
    (x >>= f) = .ok b ↔ ∃ a, x = .ok a ∧ f a = .ok b := by
  cases x <;> simp [bind, Except.bind]

theorem foldlM_invariant {step : σ → α → Except ε σ} {I : σ → Prop} {xs : List α}
    (hstep : ∀ s x s', x ∈ xs → I s → step s x = .ok s' → I s') {s s' : σ} (hs : I s)
    (h : xs.foldlM step s = .ok s') : I s' := by
  induction xs generalizing s with
  | nil =>
      cases h
      exact hs
  | cons x xs ih =>
      rw [List.foldlM_cons] at h
      obtain ⟨mid, hmid, h⟩ := bind_ok_iff.mp h
      refine ih (fun s x s' hx => hstep s x s' (List.mem_cons_of_mem _ hx)) ?_ h
      exact hstep s x mid List.mem_cons_self hs hmid

theorem forall_mem_concat {P : α → Prop} {xs : List α} {y : α} (hxs : ∀ x ∈ xs, P x) (hy : P y) :
    ∀ x ∈ xs ++ [y], P x :=
  List.forall_mem_append.mpr ⟨hxs, List.forall_mem_singleton.mpr hy⟩

theorem nodup_concat {xs : List α} {y : α} (h : xs.Nodup) (hy : y ∉ xs) : (xs ++ [y]).Nodup := by
  rw [← List.concat_eq_append]
  exact h.concat hy

theorem nodup_map_concat {f : α → β} {xs : List α} {y : α} (h : (xs.map f).Nodup)
    (hy : f y ∉ xs.map f) : ((xs ++ [y]).map f).Nodup := by
  rw [List.map_append, List.map_singleton]
  exact nodup_concat h hy

theorem nodup_eraseDups [BEq α] [LawfulBEq α] (xs : List α) : xs.eraseDups.Nodup := by
  induction hn : xs.length using Nat.strongRecOn generalizing xs with
  | ind n ih =>
      cases xs with
      | nil => exact List.nodup_nil
      | cons x xs =>
          have hlength : (xs.filter fun y => !y == x).length < n := by
            rw [← hn]
            exact Nat.lt_succ_of_le (List.length_filter_le _ _)
          rw [List.eraseDups_cons, List.nodup_cons, List.mem_eraseDups]
          exact ⟨by simp, ih _ hlength _ rfl⟩

theorem not_mem_of_lookup_eq_none [BEq α] [LawfulBEq α] {entries : List (α × β)} {k : α}
    (h : entries.lookup k = none) : k ∉ entries.map (·.1) := by
  intro hk
  obtain ⟨e, he, rfl⟩ := List.mem_map.mp hk
  exact bne_iff_ne.mp (List.lookup_eq_none_iff.mp h e he) rfl

end

theorem addKeyed_ok {α : Type} {entries entries' : List (Key × α)} {what : String} {key : Key}
    {value : α} {span : Span} (h : addKeyed entries what key value span = .ok entries') :
    key ∉ entries.map (·.1) ∧ entries' = entries ++ [(key, value)] := by
  rw [addKeyed] at h
  split at h
  · cases h
  · rename_i hnone
    cases h
    exact ⟨not_mem_of_lookup_eq_none (Option.not_isSome_iff_eq_none.mp hnone), rfl⟩

theorem ValidCounts.nil : ValidCounts [] :=
  ⟨List.nodup_nil, nofun, nofun⟩

theorem ValidCounts.concat {entries : List (Key × Int)} (h : ValidCounts entries) {e : Key × Int}
    (hfresh : e.1 ∉ entries.map (·.1)) (hkey : e.1.Valid) (hcount : IsCount e.2) :
    ValidCounts (entries ++ [e]) where
  nodup := nodup_map_concat h.nodup hfresh
  key := forall_mem_concat h.key hkey
  count := forall_mem_concat h.count hcount

theorem ValidQuantity.concat {q : Quantity} {entries : List (Key × Amount)}
    (h : ValidQuantity q entries) {key : Key} {amount : Amount}
    (hfresh : key ∉ entries.map (·.1)) (hkey : key.Valid) (hamount : amount.Valid q) :
    ValidQuantity q (entries ++ [(key, amount)]) where
  nodup := nodup_map_concat h.nodup hfresh
  key := forall_mem_concat h.key hkey
  amount := forall_mem_concat h.amount hamount

theorem WellFormedOthers.concat {R : Type} {fields : Fields R} {others : Others}
    (h : WellFormedOthers fields others) {key : Key} {value : Literal}
    (hfresh : key ∉ others.map (·.1)) (hkey : key.Valid) (hunsigned : key ∉ signatureKeys)
    (hunknown : ∀ known ∈ fields.known, Text.ofString known.1 ≠ key.text)
    (hvalue : value.WellFormed) : WellFormedOthers fields (others ++ [(key, value)]) where
  nodup := nodup_map_concat h.nodup hfresh
  key := forall_mem_concat h.key hkey
  unsigned := forall_mem_concat h.unsigned hunsigned
  unknown := forall_mem_concat h.unknown hunknown
  value := forall_mem_concat h.value hvalue

-- The invariant may depend on the statements that are used up.
structure Draft.Holds {R : Type} (I : R → List String → Prop) (others : R → Others)
    (fields : Fields R) (d : Draft R) : Prop where
  record : I d.record (d.used.map (·.1))
  free : WellFormedOthers fields (others d.record)
  noted : ∀ e ∈ others d.record, e.1 ∈ d.assigned.map (·.1)

-- Neither assignments nor more used statements harm the invariant.
structure Fields.Keeps {R : Type} (fields : Fields R) (I : R → List String → Prop)
    (others : R → Others) : Prop where
  known : ∀ e ∈ fields.known, ∀ value update, value.WellFormed → e.2 value = .ok update →
    ∀ r used, I r used → I (update r) used ∧ others (update r) = others r
  other : ∀ key value r used, I r used →
    I (fields.addOther key value r) used ∧
      others (fields.addOther key value r) = others r ++ [(key, value)]
  used : ∀ r used name, I r used → I r (used ++ [name])

-- All that an assignment can do.
theorem Draft.assign_ok {R : Type} {d d' : Draft R} {fields : Fields R} {key : Key} {value : Literal}
    {span : Span} (h : d.assign fields key value span = .ok d') :
    key ∉ signatureKeys ∧ key ∉ d.assigned.map (·.1) ∧
      ∃ f, d' = ⟨f d.record, d.assigned ++ [(key, span)], d.used⟩ ∧
        ((∀ e ∈ fields.known, Text.ofString e.1 ≠ key.text) ∧ f = fields.addOther key value ∨
          ∃ e ∈ fields.known, e.2 value = .ok f) := by
  rw [Draft.assign] at h
  split at h
  · cases h
  rename_i hsignature
  split at h
  · cases h
  rename_i hlookup
  refine ⟨hsignature, not_mem_of_lookup_eq_none hlookup, ?_⟩
  split at h
  · rename_i hfind
    cases h
    refine ⟨_, rfl, .inl ⟨fun e he => ?_, rfl⟩⟩
    simpa using List.find?_eq_none.mp hfind e he
  · rename_i name convert hfind
    split at h
    · rename_i update hconvert
      cases h
      exact ⟨update, rfl, .inr ⟨_, List.mem_of_find?_eq_some hfind, hconvert⟩⟩
    · cases h

theorem Draft.reserve_ok {R : Type} {d d' : Draft R} {kind : Kind} {name : String} {span : Span}
    (h : d.reserve kind name span = .ok d') :
    d' = ⟨d.record, d.assigned, d.used ++ [(name, span)]⟩ := by
  rw [Draft.reserve] at h
  split at h
  · cases h
  · cases h
    rfl

namespace Draft.Holds

variable {R : Type} {I : R → List String → Prop} {others : R → Others} {fields : Fields R}
  {d d' : Draft R}

theorem ofRecord {r : R} (hr : I r []) (hothers : others r = []) :
    (Draft.ofRecord r).Holds I others fields where
  record := hr
  free := by
    change WellFormedOthers fields (others r)
    rw [hothers]
    exact .nil fields
  noted := by
    change ∀ e ∈ others r, _
    rw [hothers]
    nofun

theorem modify (hd : d.Holds I others fields) {f : R → R} (hf : I (f d.record) (d.used.map (·.1)))
    (hothers : others (f d.record) = others d.record) : (d.modify f).Holds I others fields where
  record := hf
  free := by
    change WellFormedOthers fields (others (f d.record))
    rw [hothers]
    exact hd.free
  noted := by
    change ∀ e ∈ others (f d.record), _
    rw [hothers]
    exact hd.noted

theorem use (hd : d.Holds I others fields) (hfields : fields.Keeps I others) (name : String)
    (span : Span) :
    (⟨d.record, d.assigned, d.used ++ [(name, span)]⟩ : Draft R).Holds I others fields where
  record := by
    change I d.record ((d.used ++ [(name, span)]).map (·.1))
    rw [List.map_append]
    exact hfields.used d.record _ name hd.record
  free := hd.free
  noted := hd.noted

theorem reserve (hd : d.Holds I others fields) (hfields : fields.Keeps I others) {kind : Kind}
    {name : String} {span : Span} (h : d.reserve kind name span = .ok d') :
    d'.Holds I others fields := by
  rw [Draft.reserve_ok h]
  exact hd.use hfields name span

theorem assign (hd : d.Holds I others fields) (hfields : fields.Keeps I others) {key : Key}
    {value : Literal} {span : Span} (hkey : key.Valid) (hvalue : value.WellFormed)
    (h : d.assign fields key value span = .ok d') : d'.Holds I others fields := by
  obtain ⟨hunsigned, hfresh, f, rfl, ⟨hunknown, rfl⟩ | ⟨e, he, hconvert⟩⟩ := Draft.assign_ok h
  · obtain ⟨hrecord, hothers⟩ := hfields.other key value d.record _ hd.record
    have hassigned : ∀ e ∈ others d.record, e.1 ∈ (d.assigned ++ [(key, span)]).map (·.1) := by
      intro e he
      rw [List.map_append]
      exact List.mem_append_left _ (hd.noted e he)
    refine ⟨hrecord, ?_, ?_⟩
    · rw [hothers]
      refine hd.free.concat (fun hmem => hfresh ?_) hkey hunsigned hunknown hvalue
      obtain ⟨e, he, rfl⟩ := List.mem_map.mp hmem
      exact hd.noted e he
    · rw [hothers]
      refine forall_mem_concat hassigned ?_
      rw [List.map_append]
      exact List.mem_append_right _ List.mem_cons_self
  · obtain ⟨hrecord, hothers⟩ := hfields.known e he value f hvalue hconvert d.record _ hd.record
    refine ⟨hrecord, ?_, ?_⟩
    · rw [hothers]
      exact hd.free
    · rw [hothers]
      intro e he
      rw [List.map_append]
      exact List.mem_append_left _ (hd.noted e he)

end Draft.Holds

-- What each statement keeps, a body keeps.
theorem Draft.Holds.body {R : Type} {I : R → List String → Prop} {others : R → Others}
    {fields : Fields R} {add : Draft R → Statement → Except Refusal (Draft R)}
    (hadd : ∀ d s d', d.Holds I others fields → s.value.WellFormed → add d s = .ok d' →
      d'.Holds I others fields)
    {signature r : R} (hsignature : I signature []) (hothers : others signature = [])
    {statements : List Statement} (hstatements : ∀ s ∈ statements, s.value.WellFormed)
    (h : (do return (← statements.foldlM add (.ofRecord signature)).record) = Except.ok r) :
    ∃ used, I r used ∧ WellFormedOthers fields (others r) := by
  obtain ⟨d, hfold, h⟩ := bind_ok_iff.mp h
  cases h
  have hd : d.Holds I others fields :=
    foldlM_invariant (fun d s d' hs hd => hadd d s d' hd (hstatements s hs))
      (.ofRecord hsignature hothers) hfold
  exact ⟨_, hd.record, hd.free⟩

end CardLore
