import CardLore.Proofs.Merge.Lineage
import Mathlib.Data.List.Chain
import Mathlib.Data.List.Perm.Subperm

namespace CardLore

namespace Merger

-- The component of the definition is remembered already.
def Knows (m : Merger) (d : Definition) : Prop :=
  (m.resolved.lookup d.identity).isSome

-- All that a search does to the state.
def grow (m : Merger) (entries : List ((Kind × Key) × Component)) (conflicts : List Conflict) :
    Merger :=
  { m with resolved := m.resolved ++ entries, conflicts := m.conflicts ++ conflicts }

theorem remember_eq_grow (m : Merger) (d : Definition) (c : Component) :
    m.remember d c = m.grow [(d.identity, c)] [] := by
  simp [remember, grow, Definition.identity]

theorem addConflict_eq_grow (m : Merger) (c : Conflict) : m.addConflict c = m.grow [] [c] := by
  simp [addConflict, grow]

theorem grow_grow (m : Merger) (entries more : List ((Kind × Key) × Component))
    (conflicts others : List Conflict) :
    (m.grow entries conflicts).grow more others =
      m.grow (entries ++ more) (conflicts ++ others) := by
  simp [grow, List.append_assoc]

theorem grow_nil (m : Merger) : m.grow [] [] = m := by
  simp [grow]

@[simp] theorem grow_table (m : Merger) (entries : List ((Kind × Key) × Component))
    (conflicts : List Conflict) : (m.grow entries conflicts).table = m.table := rfl

@[simp] theorem grow_conflicts (m : Merger) (entries : List ((Kind × Key) × Component))
    (conflicts : List Conflict) :
    (m.grow entries conflicts).conflicts = m.conflicts ++ conflicts := rfl

@[simp] theorem grow_resolved (m : Merger) (entries : List ((Kind × Key) × Component))
    (conflicts : List Conflict) :
    (m.grow entries conflicts).resolved = m.resolved ++ entries := rfl

-- Every component that is remembered is what its definition resolves to.
def Right (m : Merger) (ds : List Definition) : Prop :=
  ∀ d ∈ ds, ∀ c, m.resolved.lookup d.identity = some c → Resolves ds d c

theorem Right.grow {m : Merger} {ds : List Definition} (h : m.Right ds)
    (hn : (ds.map Definition.identity).Nodup) {d : Definition} (hd : d ∈ ds) {c : Component}
    (hc : Resolves ds d c) (conflicts : List Conflict) :
    (m.grow [(d.identity, c)] conflicts).Right ds := by
  intro e he c' hc'
  rw [grow_resolved, List.lookup_append, Option.or_eq_some_iff] at hc'
  rcases hc' with hold | ⟨_, hnew⟩
  · exact h e he c' hold
  · by_cases hid : e.identity = d.identity
    · obtain rfl := eq_of_identity hn he hd hid
      obtain rfl : c = c' := by simpa using hnew
      exact hc
    · simp [List.lookup_cons, beq_false_of_ne hid] at hnew

-- The five ways in which a step of the search can go.
theorem resolve_succ (bound : Nat) (stack : List Definition) (d : Definition) (m : Merger) :
    (∃ c, m.resolved.lookup d.identity = some c ∧ resolve (bound + 1) stack d m = (c, m)) ∨
    (¬ m.Knows d ∧
      ((d.inherits = none ∧
        resolve (bound + 1) stack d m = (d.component, m.grow [(d.identity, d.component)] [])) ∨
      ∃ name, d.inherits = some name ∧
        (((∃ e ∈ stack, e.identity = d.identity) ∧
          resolve (bound + 1) stack d m =
            (d.component, m.grow [] [.cycle d (stack.dropWhile fun e => !e.sameIdentity d)])) ∨
        ((∀ e ∈ stack, e.identity ≠ d.identity) ∧
          ((parent? m.table.definitions d = none ∧
            resolve (bound + 1) stack d m =
              (d.component, m.grow [(d.identity, d.component)] [.unresolved d name])) ∨
          ∃ parent inherited m', parent? m.table.definitions d = some parent ∧
            resolve bound (stack ++ [d]) parent m = (inherited, m') ∧
            resolve (bound + 1) stack d m = (d.component.inherit inherited,
              m'.grow [(d.identity, d.component.inherit inherited)] [])))))) := by
  cases hl : m.resolved.lookup (d.kind, d.key) with
  | some c => exact .inl ⟨c, hl, by simp only [resolve, hl]⟩
  | none =>
      have hunknown : ¬ m.Knows d := by simp [Knows, Definition.identity, hl]
      refine .inr ⟨hunknown, ?_⟩
      cases hi : d.inherits with
      | none => exact .inl ⟨rfl, by simp only [resolve, hl, hi, remember_eq_grow]⟩
      | some name =>
          refine .inr ⟨name, rfl, ?_⟩
          by_cases hs : stack.any (·.sameIdentity d) = true
          · refine .inl ⟨?_, by simp only [resolve, hl, hi, hs, ite_true, addConflict_eq_grow]⟩
            obtain ⟨e, he, hid⟩ := List.any_eq_true.mp hs
            exact ⟨e, he, (Definition.sameIdentity_iff e d).mp hid⟩
          · refine .inr ⟨?_, ?_⟩
            · intro e he hid
              exact hs (List.any_eq_true.mpr ⟨e, he, (Definition.sameIdentity_iff e d).mpr hid⟩)
            · cases hp : m.table.resolve? d.kind name d.scope with
              | none =>
                  refine .inl ⟨by simp [parent?, hi, hp], ?_⟩
                  simp [resolve, hl, hi, hs, hp, addConflict_eq_grow, remember_eq_grow, grow_grow]
              | some parent =>
                  refine .inr ⟨parent, _, _, by simp [parent?, hi, hp], rfl, ?_⟩
                  simp [resolve, hl, hi, hs, hp, remember_eq_grow]

end Merger

-- How a search with the given path ends, and what it reports then. Below the path lie the
-- definitions that wait for its first one.
inductive Climb (ds : List Definition) (known : Definition → Prop) (path : List Definition) :
    List Conflict → Prop
  | known (h : ∀ d ∈ path.getLast?, ∃ p, Parent ds d p ∧ known p) : Climb ds known path []
  | root {d : Definition} (hlast : path.getLast? = some d) (h : d.inherits = none) :
      Climb ds known path []
  | dangling {d : Definition} {name : Key} (hlast : path.getLast? = some d)
      (hname : d.inherits = some name) (h : ¬ Resolvable ds d name) :
      Climb ds known path [.unresolved d name]
  | cycle {d e : Definition} (hlast : path.getLast? = some d) (h : Parent ds d e) (he : e ∈ path) :
      Climb ds known path [.cycle e (path.dropWhile fun x => !x.sameIdentity e)]

-- What a search found: the entries that it made, for the definitions of its path from the top down,
-- and the component of the definition. Without a conflict, both are right.
structure Found (ds : List Definition) (m : Merger) (stack : List Definition) (d : Definition)
    (result : Component × Merger) (path : List Definition) (conflicts : List Conflict) : Prop where
  grown : ∃ entries, result.2 = m.grow entries conflicts ∧
    entries.map Prod.fst = path.reverse.map Definition.identity
  fresh : ∀ e ∈ path, e ∈ ds ∧ ¬ m.Knows e
  nodup : (stack ++ path).Nodup
  chain : (stack ++ path).IsChain (Parent ds)
  start : path.head? = some d ∨ path = [] ∧ (m.Knows d ∨ d ∈ stack)
  climb : Climb ds m.Knows (stack ++ path) conflicts
  right : conflicts = [] → m.Right ds → result.2.Right ds ∧ Resolves ds d result.1

theorem exists_next_of_isChain {R : Definition → Definition → Prop} {stack : List Definition}
    {d e : Definition} (hc : (stack ++ [d]).IsChain R) (he : e ∈ stack) : ∃ f, R e f := by
  obtain ⟨before, after, rfl⟩ := List.append_of_mem he
  rw [List.append_assoc, List.cons_append, List.isChain_split] at hc
  cases after with
  | nil => exact ⟨d, (List.isChain_cons_cons.mp hc.2).1⟩
  | cons f rest => exact ⟨f, (List.isChain_cons_cons.mp hc.2).1⟩

theorem nodup_concat_of_notMem {stack : List Definition} {d : Definition} (hn : stack.Nodup)
    (hd : d ∉ stack) : (stack ++ [d]).Nodup := by
  rw [← List.concat_eq_append, List.nodup_concat]
  exact ⟨hd, hn⟩

-- The definitions of `stack` wait, each for the next one and the last for `d`. All are in the
-- table, and none is resolved or waits twice.
structure Waits (m : Merger) (stack : List Definition) (d : Definition) : Prop where
  mem : d ∈ m.table.definitions
  stack_mem : ∀ e ∈ stack, e ∈ m.table.definitions
  nodup : stack.Nodup
  unknown : ∀ e ∈ stack, ¬ m.Knows e
  chain : (stack ++ [d]).IsChain (Parent m.table.definitions)

section

variable {m : Merger} {stack : List Definition} {d : Definition}

theorem waits_nil (hd : d ∈ m.table.definitions) : Waits m [] d :=
  ⟨hd, List.forall_mem_nil _, .nil, List.forall_mem_nil _, .singleton _⟩

namespace Waits

theorem stack_chain (h : Waits m stack d) : stack.IsChain (Parent m.table.definitions) :=
  (List.isChain_append.mp h.chain).1

theorem parent_of_last (h : Waits m stack d) :
    ∀ e ∈ stack.getLast?, Parent m.table.definitions e d :=
  fun e he => (List.isChain_append.mp h.chain).2.2 e he d rfl

-- The waiting definitions are distinct and all in the table.
theorem length_le (h : Waits m stack d) : stack.length ≤ m.table.definitions.length :=
  (List.Nodup.subperm h.nodup h.stack_mem).length_le

theorem push (h : Waits m stack d) (hnot : ¬ m.Knows d) (hns : d ∉ stack) {parent : Definition}
    (hparent : Parent m.table.definitions d parent) : Waits m (stack ++ [d]) parent where
  mem := hparent.mem
  stack_mem := List.forall_mem_append.mpr ⟨h.stack_mem, List.forall_mem_singleton.mpr h.mem⟩
  nodup := nodup_concat_of_notMem h.nodup hns
  unknown := List.forall_mem_append.mpr ⟨h.unknown, List.forall_mem_singleton.mpr hnot⟩
  chain := by
    rw [List.append_assoc, List.singleton_append, List.isChain_append_cons_cons]
    exact ⟨h.chain, hparent, .singleton _⟩

-- The definition is resolved already.
theorem found_known (h : Waits m stack d) {c : Component}
    (hc : m.resolved.lookup d.identity = some c) :
    Found m.table.definitions m stack d (c, m) [] [] := by
  have hknown : m.Knows d := by simp [Merger.Knows, hc]
  refine ⟨⟨[], m.grow_nil.symm, rfl⟩, List.forall_mem_nil _, by simpa using h.nodup,
    by simpa using h.stack_chain, .inr ⟨rfl, .inl hknown⟩, .known ?_, fun _ hright => ⟨hright, hright d h.mem c hc⟩⟩
  intro e he
  rw [List.append_nil] at he
  exact ⟨d, h.parent_of_last e he, hknown⟩

-- The definition has no parent, so it does not wait.
theorem found_root (hn : (m.table.definitions.map Definition.identity).Nodup)
    (h : Waits m stack d) (hnot : ¬ m.Knows d) (hroot : d.inherits = none) :
    Found m.table.definitions m stack d
      (d.component, m.grow [(d.identity, d.component)] []) [d] [] := by
  have hns : d ∉ stack := by
    intro hm
    obtain ⟨p, name, hname, _⟩ := exists_next_of_isChain h.chain hm
    rw [hroot] at hname
    cases hname
  exact ⟨⟨_, rfl, rfl⟩, List.forall_mem_singleton.mpr ⟨h.mem, hnot⟩,
    nodup_concat_of_notMem h.nodup hns, h.chain, .inl rfl, .root List.getLast?_concat hroot,
    fun _ hright => ⟨hright.grow hn h.mem (.root hroot) _, .root hroot⟩⟩

-- The definition waits already.
theorem found_cycle (h : Waits m stack d) (hin : d ∈ stack) :
    Found m.table.definitions m stack d
      (d.component, m.grow [] [.cycle d (stack.dropWhile fun e => !e.sameIdentity d)]) []
      [.cycle d (stack.dropWhile fun e => !e.sameIdentity d)] := by
  obtain ⟨last, hlast⟩ : ∃ last, stack.getLast? = some last :=
    Option.isSome_iff_exists.mp (List.getLast?_isSome.mpr (List.ne_nil_of_mem hin))
  refine ⟨⟨[], rfl, rfl⟩, List.forall_mem_nil _, by simpa using h.nodup,
    by simpa using h.stack_chain, .inr ⟨rfl, .inr hin⟩, ?_, nofun⟩
  rw [List.append_nil]
  exact .cycle hlast (h.parent_of_last last hlast) hin

-- The name that the definition inherits from resolves to nothing.
theorem found_dangling (h : Waits m stack d) (hnot : ¬ m.Knows d) (hns : d ∉ stack) {name : Key}
    (hname : d.inherits = some name) (hnone : parent? m.table.definitions d = none) :
    Found m.table.definitions m stack d
      (d.component, m.grow [(d.identity, d.component)] [.unresolved d name]) [d]
      [.unresolved d name] :=
  ⟨⟨_, rfl, rfl⟩, List.forall_mem_singleton.mpr ⟨h.mem, hnot⟩,
    nodup_concat_of_notMem h.nodup hns, h.chain, .inl rfl,
    .dangling List.getLast?_concat hname ((parent?_eq_none_iff _ d name hname).mp hnone), nofun⟩

-- The search goes on with the parent, for which the definition waits.
theorem found_parent (hn : (m.table.definitions.map Definition.identity).Nodup)
    (h : Waits m stack d) (hnot : ¬ m.Knows d) {parent : Definition}
    (hparent : Parent m.table.definitions d parent) {inherited : Component} {m' : Merger}
    {path : List Definition} {conflicts : List Conflict}
    (hfound : Found m.table.definitions m (stack ++ [d]) parent (inherited, m') path conflicts) :
    Found m.table.definitions m stack d (d.component.inherit inherited,
      m'.grow [(d.identity, d.component.inherit inherited)] []) (d :: path) conflicts := by
  obtain ⟨entries, rfl, hentries⟩ := hfound.grown
  have hsplit : stack ++ d :: path = stack ++ [d] ++ path := by simp
  refine ⟨⟨entries ++ [(d.identity, d.component.inherit inherited)], ?_, by simp [hentries]⟩,
    List.forall_mem_cons.mpr ⟨⟨h.mem, hnot⟩, hfound.fresh⟩, hsplit ▸ hfound.nodup,
    hsplit ▸ hfound.chain, .inl rfl, hsplit ▸ hfound.climb, ?_⟩
  · rw [Merger.grow_grow, List.append_nil]
  · intro hnone hbefore
    obtain ⟨habove, hinherited⟩ := hfound.right hnone hbefore
    exact ⟨habove.grow hn h.mem (.child hparent hinherited) _, .child hparent hinherited⟩

end Waits

-- The search that waits behind `stack` finds what `Found` says. The bound is large enough because
-- no more definitions can wait than the table has.
theorem found_resolve (hn : (m.table.definitions.map Definition.identity).Nodup) (bound : Nat)
    (h : Waits m stack d) (hbound : m.table.definitions.length < bound + stack.length) :
    ∃ path conflicts, Found m.table.definitions m stack d (Merger.resolve bound stack d m)
      path conflicts := by
  induction bound generalizing stack d with
  | zero =>
      have hle := h.length_le
      omega
  | succ bound ih =>
      rcases Merger.resolve_succ bound stack d m with
        ⟨c, hc, hr⟩ | ⟨hnot, ⟨hroot, hr⟩ | ⟨name, hname, ⟨⟨e, he, hid⟩, hr⟩ |
          ⟨hfresh, ⟨hnone, hr⟩ | ⟨parent, inherited, m', hparent, habove, hr⟩⟩⟩⟩
      all_goals rw [hr]
      · exact ⟨_, _, h.found_known hc⟩
      · exact ⟨_, _, h.found_root hn hnot hroot⟩
      · obtain rfl := eq_of_identity hn (h.stack_mem e he) h.mem hid
        exact ⟨_, _, h.found_cycle he⟩
      · exact ⟨_, _, h.found_dangling hnot (fun hm => hfresh d hm rfl) hname hnone⟩
      · have hrel := (parent?_eq_some_iff hn d parent).mp hparent
        obtain ⟨path, conflicts, hfound⟩ := ih (h.push hnot (fun hm => hfresh d hm rfl) hrel)
          (by rw [List.length_append, List.length_singleton]; omega)
        rw [habove] at hfound
        exact ⟨_, _, h.found_parent hn hnot hrel hfound⟩

end

end CardLore
