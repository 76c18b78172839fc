import CardLore.Proofs.Merge.Collected
import CardLore.Proofs.Merge.Settled

namespace CardLore

open Relation

-- Two ways up from one definition are the same as long as neither has come to the goal before.
theorem eq_of_isChain_parent {ds : List Definition} (hn : (ds.map Definition.identity).Nodup)
    {s t : Definition} {xs ys : List Definition} (hxs : (t :: (xs ++ [s])).IsChain (Parent ds))
    (hys : (t :: (ys ++ [s])).IsChain (Parent ds)) (hsx : s ∉ xs) (hsy : s ∉ ys) : xs = ys := by
  induction xs generalizing t ys with
  | nil =>
      cases ys with
      | nil => rfl
      | cons y ys =>
          have hs := (List.isChain_cons_cons.mp hxs).1
          have hy := (List.isChain_cons_cons.mp hys).1
          exact absurd (Parent.unique hn hs hy ▸ List.mem_cons_self) hsy
  | cons x xs ih =>
      obtain ⟨hx, hxs⟩ := List.isChain_cons_cons.mp hxs
      cases ys with
      | nil =>
          have hs := (List.isChain_cons_cons.mp hys).1
          exact absurd (Parent.unique hn hs hx ▸ List.mem_cons_self) hsx
      | cons y ys =>
          obtain ⟨hy, hys⟩ := List.isChain_cons_cons.mp hys
          obtain rfl := Parent.unique hn hx hy
          rw [ih hxs hys (List.not_mem_of_not_mem_cons hsx) (List.not_mem_of_not_mem_cons hsy)]

theorem not_acc_of_transGen {R : Definition → Definition → Prop} {d : Definition}
    (h : TransGen R d d) : ¬ Acc (fun p c => R c p) d := by
  intro hacc
  have hplus : Acc (TransGen (Function.swap R)) d := hacc.transGen
  clear hacc
  induction hplus with
  | intro d _ ih => exact ih d (transGen_swap.mpr h) h

namespace ParentCycle

variable {ds : List Definition}

theorem transGen_start (c : ParentCycle ds) : TransGen (Parent ds) c.start c.start := by
  obtain ⟨e, path, hpath⟩ : ∃ e path, c.rest ++ [c.start] = e :: path :=
    List.exists_cons_of_ne_nil (by simp)
  obtain ⟨hfirst, hrest⟩ := List.isChain_cons_cons.mp (hpath ▸ c.chain)
  refine TransGen.head' hfirst (List.relationReflTransGen_of_exists_isChain_cons path hrest ?_)
  simp [← hpath]

-- Who is on a cycle has its parent there too.
theorem parent_mem (hn : (ds.map Definition.identity).Nodup) (c : ParentCycle ds)
    {d p : Definition} (hd : d ∈ c.members) (hp : Parent ds d p) : p ∈ c.members := by
  obtain ⟨before, after, heq⟩ := List.append_of_mem hd
  have hchain : (before ++ d :: (after ++ [c.start])).IsChain (Parent ds) := by
    have h := c.chain
    rwa [← List.cons_append, show c.start :: c.rest = _ from heq, List.append_assoc,
      List.cons_append] at h
  cases after with
  | nil =>
      have hback := (List.isChain_cons_cons.mp (List.isChain_split.mp hchain).2).1
      rw [Parent.unique hn hp hback]
      exact List.mem_cons_self
  | cons e rest =>
      have hnext := (List.isChain_cons_cons.mp (List.isChain_split.mp hchain).2).1
      rw [Parent.unique hn hp hnext, heq]
      simp

theorem mem_of_reflTransGen (hn : (ds.map Definition.identity).Nodup) (c : ParentCycle ds)
    {d : Definition} (h : ReflTransGen (Parent ds) c.start d) : d ∈ c.members := by
  induction h with
  | refl => exact List.mem_cons_self
  | tail _ hp ih => exact c.parent_mem hn ih hp

-- The same cycle from another of its members.
theorem exists_rotation (c : ParentCycle ds) {d : Definition} (hd : d ∈ c.members) :
    ∃ c' : ParentCycle ds, c'.start = d ∧ c'.members.IsRotated c.members := by
  obtain ⟨before, after, heq⟩ := List.append_of_mem hd
  cases before with
  | nil => exact ⟨c, (List.cons.inj heq).1, .refl _⟩
  | cons e before =>
      obtain ⟨hstart, hrest⟩ := List.cons.inj heq
      have hchain : (e :: before ++ d :: (after ++ [e])).IsChain (Parent ds) := by
        simpa [hstart, hrest] using c.chain
      obtain ⟨hto, hfrom⟩ := List.isChain_split.mp hchain
      have hrot : (d :: (after ++ e :: before)).IsRotated c.members := by
        rw [heq]
        exact List.isRotated_append (l := d :: after)
      refine ⟨⟨d, after ++ e :: before, ?_, ?_⟩, rfl, hrot⟩
      · exact hrot.nodup_iff.mpr c.nodup
      · rw [List.append_assoc]
        change (d :: after ++ e :: (before ++ [d])).IsChain (Parent ds)
        exact List.isChain_split.mpr ⟨hfrom, hto⟩

-- A cycle that starts on another one is that one.
theorem isRotated_of_mem (hn : (ds.map Definition.identity).Nodup) (c c' : ParentCycle ds)
    (h : c'.start ∈ c.members) : c'.members.IsRotated c.members := by
  obtain ⟨r, hstart, hrot⟩ := c.exists_rotation h
  have hrest : c'.rest = r.rest := by
    have hchain := r.chain
    have hfresh := (List.nodup_cons.mp r.nodup).1
    rw [hstart] at hchain hfresh
    exact eq_of_isChain_parent hn c'.chain hchain (List.nodup_cons.mp c'.nodup).1 hfresh
  rw [members, hrest, ← hstart]
  exact hrot

end ParentCycle

theorem mem_kinds (t : DefinitionTable) (kind : Kind) :
    kind ∈ t.kinds ↔ ∃ d ∈ t.definitions, d.kind = kind := by
  simp [DefinitionTable.kinds]

theorem mem_all (t : DefinitionTable) (d : Definition) : d ∈ t.all ↔ d ∈ t.definitions := by
  simp only [DefinitionTable.all, List.mem_flatMap, List.mem_filter, mem_kinds, decide_eq_true_eq]
  constructor
  · rintro ⟨_, _, hd, _⟩
    exact hd
  · intro hd
    exact ⟨d.kind, ⟨d, hd, rfl⟩, hd, rfl⟩

-- All definitions are resolved at the end, so what is reported is what the whole table has.
theorem exists_settled {ds : List Definition} (hn : (ds.map Definition.identity).Nodup)
    {m : Merger} (htable : m.table.definitions = ds) (hresolved : m.resolved = []) :
    ∃ done cycles, Settled ds m m.resolveInheritance done cycles ∧ done.Perm ds := by
  have hall : ∀ d, d ∈ m.table.all ↔ d ∈ ds := by
    intro d
    rw [mem_all, htable]
  obtain ⟨done, cycles, hsettled, _, hdone⟩ := (Settled.init ds hresolved).foldl_resolveOne hn htable
    m.table.all fun d hd => (hall d).mp hd
  refine ⟨done, cycles, hsettled, ?_⟩
  rw [List.perm_ext_iff_of_nodup hsettled.nodup hn.of_map]
  exact fun d => ⟨hsettled.subset d, fun hd => hdone d ((hall d).mpr hd)⟩

-- A cycle that the state reported can be found from anywhere on a cycle of the parent relation.
theorem Settled.exists_cycle {ds : List Definition}
    {start m : Merger} {done : List Definition} {cycles : List (ParentCycle ds)}
    (h : Settled ds start m done cycles) (hdone : done.Perm ds) {d : Definition}
    (hd : TransGen (Parent ds) d d) : ∃ c ∈ cycles, ReflTransGen (Parent ds) d c.start := by
  have hmem : d ∈ ds := by
    obtain ⟨e, _, hp⟩ := TransGen.tail'_iff.mp hd
    exact hp.mem
  rcases h.ends d (hdone.mem_iff.mpr hmem) with hacc | hcycle
  · exact absurd hacc (not_acc_of_transGen hd)
  · exact hcycle

theorem Settled.exists_isRotated {ds : List Definition} (hn : (ds.map Definition.identity).Nodup)
    {start m : Merger} {done : List Definition} {cycles : List (ParentCycle ds)}
    (h : Settled ds start m done cycles) (hdone : done.Perm ds) (c : ParentCycle ds) :
    ∃ c' ∈ cycles, c'.members.IsRotated c.members := by
  obtain ⟨c', hc', hpath⟩ := h.exists_cycle hdone c.transGen_start
  exact ⟨c', hc', c.isRotated_of_mem hn c' (c.mem_of_reflTransGen hn hpath)⟩

-- The state of a run that has merged the files and resolved all parents.
def finalState (trees : List FileTree) : Merger :=
  (trees.foldl Merger.merge .empty).resolveInheritance

theorem mergeTrees_of_nil {trees : List FileTree} (h : (finalState trees).conflicts = []) :
    mergeTrees trees = .ok (finalState trees).corpus :=
  if_pos (List.isEmpty_iff.mpr h)

theorem mergeTrees_of_ne_nil {trees : List FileTree} (h : (finalState trees).conflicts ≠ []) :
    mergeTrees trees = .error (finalState trees).conflicts :=
  if_neg fun he => h (List.isEmpty_iff.mp he)

theorem exists_settled_trees (trees : List FileTree) :
    ∃ done cycles, Settled (kept (declared trees)) (trees.foldl Merger.merge .empty)
      (finalState trees) done cycles ∧ done.Perm (kept (declared trees)) := by
  have hcollected := collected_trees trees
  have htable := hcollected.table
  rw [definitionsOf_events] at htable
  exact exists_settled (kept_nodup _) htable hcollected.resolved

-- The final conflicts are those of the collected definitions and those that the searches found.
theorem exists_conflicts_eq (trees : List FileTree) :
    ∃ found, ∃ cycles : List (ParentCycle (kept (declared trees))),
      (finalState trees).conflicts = repeats (declared trees) ++ found ∧
      found.Perm (danglingReports (kept (declared trees)) (kept (declared trees)) ++
        cycles.map ParentCycle.report) ∧
      cycles.Pairwise (fun c c' => c.members.Disjoint c'.members) ∧
      ∀ c : ParentCycle (kept (declared trees)), ∃ c' ∈ cycles, c'.members.IsRotated c.members := by
  obtain ⟨done, cycles, hsettled, hdone⟩ := exists_settled_trees trees
  obtain ⟨entries, found, hgrown, hfound⟩ := hsettled.grown
  refine ⟨found, cycles, ?_, ?_, hsettled.disjoint, ?_⟩
  · rw [hgrown, Merger.grow_conflicts, (collected_trees trees).conflicts, definitionsOf_events]
  · exact hfound.trans ((hdone.filterMap _).append_right _)
  · exact hsettled.exists_isRotated (kept_nodup _) hdone

-- Every problem that the definitions of a run have is reported, once: a repeated definition at its
-- place and that of the first one, a name that resolves to nothing, and a cycle of parents, from
-- one of its members around to it. A run that has none gives a corpus, apart from the depth of the
-- stack, see `Merger.resolve`.
theorem merge_reports_each_conflict_once (trees : List FileTree) :
    let ds := kept (declared trees)
    let outcome := (trees.foldl Merger.merge .empty).finish
    (∃ found, ∃ cycles : List (ParentCycle ds),
      outcome.2.conflicts = repeats (declared trees) ++ found ∧
      found.Perm (danglingReports ds ds ++ cycles.map ParentCycle.report) ∧
      cycles.Pairwise (fun c c' => c.members.Disjoint c'.members) ∧
      ∀ c : ParentCycle ds, ∃ c' ∈ cycles, c'.members.IsRotated c.members) ∧
    (∀ d first, (Conflict.duplicate d first).code = "E300" ∧
      (Conflict.duplicate d first).labels =
        [⟨d.span, "redefined here", .primary⟩, .secondary first.span "first defined here"]) ∧
    (∀ d name, (Conflict.unresolved d name).code = "E301") ∧
    (∀ c : ParentCycle ds, c.report.code = "E302" ∧
      c.report.message = Text.concat ["inheritance cycle: ",
        Text.join " -> " ((c.members ++ [c.start]).map fun d => d.key.text)]) ∧
    (outcome.1 = .error outcome.2.conflicts ↔ outcome.2.conflicts ≠ []) ∧
    ((∃ corpus, outcome.1 = .ok corpus) ↔ outcome.2.conflicts = []) := by
  intro ds outcome
  refine ⟨exists_conflicts_eq trees, fun d first => ⟨rfl, rfl⟩, fun d name => rfl, ?_, ?_, ?_⟩
  · intro c
    refine ⟨rfl, ?_⟩
    simp [ParentCycle.report, Conflict.message]
  · change mergeTrees trees = .error (finalState trees).conflicts ↔ (finalState trees).conflicts ≠ []
    refine ⟨fun herror hnil => ?_, mergeTrees_of_ne_nil⟩
    cases herror.symm.trans (mergeTrees_of_nil hnil)
  · change (∃ corpus, mergeTrees trees = .ok corpus) ↔ (finalState trees).conflicts = []
    constructor
    · rintro ⟨corpus, hok⟩
      by_contra hne
      cases hok.symm.trans (mergeTrees_of_ne_nil hne)
    · intro hnil
      exact ⟨_, mergeTrees_of_nil hnil⟩

end CardLore
