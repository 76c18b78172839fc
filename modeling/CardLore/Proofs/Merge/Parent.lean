import CardLore.Proofs.Merge.Declared
import Mathlib.Logic.Relation

namespace CardLore

-- Some definition of the child's kind goes by the name, in the child's namespace or absolutely.
def Resolvable (ds : List Definition) (d : Definition) (name : Key) : Prop :=
  ∃ p ∈ ds, p.kind = d.kind ∧ (p.key = d.scope.child name ∨ p.key = name)

instance (ds : List Definition) (d : Definition) (name : Key) : Decidable (Resolvable ds d name) :=
  inferInstanceAs (Decidable (∃ p ∈ ds, p.kind = d.kind ∧ (p.key = d.scope.child name ∨ p.key = name)))

def Parent (ds : List Definition) (d p : Definition) : Prop :=
  ∃ name, d.inherits = some name ∧ p ∈ ds ∧ p.kind = d.kind ∧
    (p.key = d.scope.child name ∨
      p.key = name ∧ ∀ q ∈ ds, q.kind = d.kind → q.key ≠ d.scope.child name)

-- The parent that the table finds.
def parent? (ds : List Definition) (d : Definition) : Option Definition :=
  d.inherits.bind fun name => DefinitionTable.resolve? ⟨ds⟩ d.kind name d.scope

theorem eq_of_identity {ds : List Definition} (hn : (ds.map Definition.identity).Nodup)
    {d e : Definition} (hd : d ∈ ds) (he : e ∈ ds) (h : d.identity = e.identity) : d = e :=
  List.inj_on_of_nodup_map hn hd he h

theorem lookup?_eq_some_iff {ds : List Definition} (hn : (ds.map Definition.identity).Nodup)
    (kind : Kind) (key : Key) (d : Definition) :
    DefinitionTable.lookup? ⟨ds⟩ kind key = some d ↔ d ∈ ds ∧ d.kind = kind ∧ d.key = key := by
  constructor
  · intro h
    have hp := List.find?_some (p := fun x : Definition => x.kind = kind && x.key = key) h
    exact ⟨List.mem_of_find?_eq_some h, by simpa using hp⟩
  · rintro ⟨hd, rfl, rfl⟩
    cases h : DefinitionTable.lookup? ⟨ds⟩ d.kind d.key with
    | none =>
        have hnone := List.find?_eq_none.mp h d hd
        simp at hnone
    | some e =>
        have he := List.find?_some (p := fun x : Definition => x.kind = d.kind && x.key = d.key) h
        have hid : e.identity = d.identity := by simpa [Definition.identity] using he
        rw [eq_of_identity hn (List.mem_of_find?_eq_some h) hd hid]

theorem lookup?_eq_none_iff (ds : List Definition) (kind : Kind) (key : Key) :
    DefinitionTable.lookup? ⟨ds⟩ kind key = none ↔ ∀ d ∈ ds, d.kind = kind → d.key ≠ key := by
  simp [DefinitionTable.lookup?]

-- In no namespace the two ways to read a name are one.
theorem resolve?_eq (t : DefinitionTable) (kind : Kind) (name scope : Key) :
    t.resolve? kind name scope =
      (t.lookup? kind (scope.child name)).or (t.lookup? kind name) := by
  by_cases h : scope.isEmpty
  · simp [DefinitionTable.resolve?, Key.child, h]
  · simp [DefinitionTable.resolve?, h]

theorem parent?_eq_some_iff {ds : List Definition} (hn : (ds.map Definition.identity).Nodup)
    (d p : Definition) : parent? ds d = some p ↔ Parent ds d p := by
  constructor
  · intro h
    obtain ⟨name, hname, hp⟩ := Option.bind_eq_some_iff.mp h
    rw [resolve?_eq, Option.or_eq_some_iff] at hp
    rcases hp with hp | ⟨hnone, hp⟩
    · obtain ⟨hm, hk, he⟩ := (lookup?_eq_some_iff hn _ _ _).mp hp
      exact ⟨name, hname, hm, hk, .inl he⟩
    · obtain ⟨hm, hk, he⟩ := (lookup?_eq_some_iff hn _ _ _).mp hp
      exact ⟨name, hname, hm, hk, .inr ⟨he, (lookup?_eq_none_iff _ _ _).mp hnone⟩⟩
  · rintro ⟨name, hname, hm, hk, he⟩
    rw [parent?, hname, Option.bind_some, resolve?_eq, Option.or_eq_some_iff]
    rcases he with he | ⟨he, hnone⟩
    · exact .inl ((lookup?_eq_some_iff hn _ _ _).mpr ⟨hm, hk, he⟩)
    · exact .inr ⟨(lookup?_eq_none_iff _ _ _).mpr hnone,
        (lookup?_eq_some_iff hn _ _ _).mpr ⟨hm, hk, he⟩⟩

theorem parent?_eq_none_iff (ds : List Definition) (d : Definition) (name : Key)
    (hname : d.inherits = some name) : parent? ds d = none ↔ ¬ Resolvable ds d name := by
  rw [parent?, hname, Option.bind_some, resolve?_eq, Option.or_eq_none_iff, lookup?_eq_none_iff,
    lookup?_eq_none_iff]
  constructor
  · rintro ⟨hrel, habs⟩ ⟨p, hp, hk, he⟩
    rcases he with he | he
    · exact hrel p hp hk he
    · exact habs p hp hk he
  · intro h
    exact ⟨fun p hp hk he => h ⟨p, hp, hk, .inl he⟩, fun p hp hk he => h ⟨p, hp, hk, .inr he⟩⟩

theorem Parent.mem {ds : List Definition} {d p : Definition} (h : Parent ds d p) : p ∈ ds := by
  obtain ⟨_, _, hm, _⟩ := h
  exact hm

theorem Parent.kind_eq {ds : List Definition} {d p : Definition} (h : Parent ds d p) :
    p.kind = d.kind := by
  obtain ⟨_, _, _, hk, _⟩ := h
  exact hk

-- Each child has one parent at most.
theorem Parent.unique {ds : List Definition} (hn : (ds.map Definition.identity).Nodup)
    {d p q : Definition} (hp : Parent ds d p) (hq : Parent ds d q) : p = q := by
  rw [← parent?_eq_some_iff hn] at hp hq
  exact Option.some.inj (hp.symm.trans hq)

theorem exists_parent_iff {ds : List Definition} (hn : (ds.map Definition.identity).Nodup)
    (d : Definition) (name : Key) (hname : d.inherits = some name) :
    (∃ p, Parent ds d p) ↔ Resolvable ds d name := by
  rw [← not_iff_not, ← parent?_eq_none_iff ds d name hname, Option.eq_none_iff_forall_ne_some,
    not_exists]
  exact forall_congr' fun p => not_congr (parent?_eq_some_iff hn d p).symm

theorem resolvable_congr {ds es : List Definition} (h : ∀ d, d ∈ ds ↔ d ∈ es) (d : Definition)
    (name : Key) : Resolvable ds d name ↔ Resolvable es d name := by
  simp only [Resolvable, h]

theorem parent_congr {ds es : List Definition} (h : ∀ d, d ∈ ds ↔ d ∈ es) :
    Parent ds = Parent es := by
  funext d p
  simp only [Parent, h]

end CardLore
