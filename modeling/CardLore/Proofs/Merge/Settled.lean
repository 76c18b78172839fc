import CardLore.Proofs.Merge.Climb
import Mathlib.Data.List.Rotate

namespace CardLore

-- A way through the parents of a definition back to it that passes each member once.
structure ParentCycle (ds : List Definition) where
  start : Definition
  rest : List Definition
  nodup : (start :: rest).Nodup
  chain : (start :: (rest ++ [start])).IsChain (Parent ds)

namespace ParentCycle

def members {ds : List Definition} (c : ParentCycle ds) : List Definition :=
  c.start :: c.rest

-- The conflict that reports a cycle from its start.
def report {ds : List Definition} (c : ParentCycle ds) : Conflict :=
  .cycle c.start c.members

end ParentCycle

-- The conflict of a definition whose name resolves to nothing.
def danglingReport? (ds : List Definition) (d : Definition) : Option Conflict :=
  d.inherits.bind fun name => if Resolvable ds d name then none else some (.unresolved d name)

def danglingReports (ds among : List Definition) : List Conflict :=
  among.filterMap (danglingReport? ds)

-- The parents of the definition come to an end, or run into one of the cycles.
def Ends (ds : List Definition) (cycles : List (ParentCycle ds)) (d : Definition) : Prop :=
  Acc (fun p c => Parent ds c p) d ∨
    ∃ c ∈ cycles, Relation.ReflTransGen (Parent ds) d c.start

theorem danglingReport?_of_parent {ds : List Definition} {d p : Definition} (h : Parent ds d p) :
    danglingReport? ds d = none := by
  obtain ⟨name, hname, hm, hk, he⟩ := h
  have hres : Resolvable ds d name := ⟨p, hm, hk, he.imp id And.left⟩
  simp [danglingReport?, hname, hres]

theorem Ends.of_parent {ds : List Definition} (hn : (ds.map Definition.identity).Nodup)
    {cycles : List (ParentCycle ds)} {d : Definition}
    (h : ∀ p, Parent ds d p → Ends ds cycles p) : Ends ds cycles d := by
  by_cases hex : ∃ p, Parent ds d p
  · obtain ⟨p, hp⟩ := hex
    rcases h p hp with hacc | ⟨c, hc, hpath⟩
    · refine .inl (Acc.intro d fun q hq => ?_)
      rw [Parent.unique hn hq hp]
      exact hacc
    · exact .inr ⟨c, hc, .head hp hpath⟩
  · exact .inl (Acc.intro d fun q hq => absurd ⟨q, hq⟩ hex)

theorem Ends.mono {ds : List Definition} {cycles more : List (ParentCycle ds)} {d : Definition}
    (h : Ends ds cycles d) : Ends ds (cycles ++ more) d := by
  rcases h with hacc | ⟨c, hc, hpath⟩
  · exact .inl hacc
  · exact .inr ⟨c, List.mem_append_left _ hc, hpath⟩

-- What holds of a definition if it holds of its parents holds along a whole path if it holds of the
-- parents of the last definition.
theorem forall_path {ds : List Definition} (hn : (ds.map Definition.identity).Nodup)
    {Q : Definition → Prop} (hQ : ∀ d, (∀ p, Parent ds d p → Q p) → Q d)
    {path : List Definition} (hchain : path.IsChain (Parent ds))
    (hlast : ∀ d ∈ path.getLast?, ∀ p, Parent ds d p → Q p) : ∀ d ∈ path, Q d := by
  induction path with
  | nil => simp
  | cons d rest ih =>
      cases rest with
      | nil => simpa using hQ d (hlast d rfl)
      | cons e rest =>
          obtain ⟨hde, hrest⟩ := List.isChain_cons_cons.mp hchain
          have htail := ih hrest (by simpa using hlast)
          refine List.forall_mem_cons.mpr ⟨hQ d fun p hp => ?_, htail⟩
          rw [Parent.unique hn hp hde]
          exact htail e List.mem_cons_self

-- A definition of a path has its parent on the path, unless it is the last one.
theorem mem_path_or_last {ds : List Definition} (hn : (ds.map Definition.identity).Nodup)
    {path : List Definition} (hchain : path.IsChain (Parent ds)) {d p : Definition}
    (hd : d ∈ path) (hp : Parent ds d p) : p ∈ path ∨ path.getLast? = some d := by
  obtain ⟨before, after, rfl⟩ := List.append_of_mem hd
  cases after with
  | nil => exact .inr (by simp)
  | cons e rest =>
      have hde := (List.isChain_cons_cons.mp (List.isChain_split.mp hchain).2).1
      rw [Parent.unique hn hp hde]
      exact .inl (by simp)

-- No name of a path dangles but that of its last definition.
theorem danglingReports_path {ds path : List Definition} (hchain : path.IsChain (Parent ds)) :
    danglingReports ds path = danglingReports ds path.getLast?.toList := by
  induction path with
  | nil => rfl
  | cons d rest ih =>
      cases rest with
      | nil => rfl
      | cons e rest =>
          obtain ⟨hde, hrest⟩ := List.isChain_cons_cons.mp hchain
          rw [List.getLast?_cons_cons, ← ih hrest, danglingReports, danglingReports,
            List.filterMap_cons, danglingReport?_of_parent hde]

-- A path that meets itself again ends in a cycle: its part from the definition that it meets.
theorem exists_parentCycle {ds path : List Definition} (hn : (ds.map Definition.identity).Nodup)
    (hds : ∀ d ∈ path, d ∈ ds) (hnodup : path.Nodup) (hchain : path.IsChain (Parent ds))
    {d e : Definition} (hlast : path.getLast? = some d) (hp : Parent ds d e) (he : e ∈ path) :
    ∃ c : ParentCycle ds, c.start = e ∧
      c.members = path.dropWhile fun x => !x.sameIdentity e := by
  obtain ⟨before, after, rfl⟩ := List.append_of_mem he
  have hdrop : (before ++ e :: after).dropWhile (fun x => !x.sameIdentity e) = e :: after := by
    have hbefore : ∀ x ∈ before, (!x.sameIdentity e) = true := by
      intro x hx
      rw [Bool.not_eq_true', ← Bool.not_eq_true, Definition.sameIdentity_iff]
      intro hid
      have hxe := eq_of_identity hn (hds x (by simp [hx])) (hds e he) hid
      exact (List.nodup_append.mp hnodup).2.2 x hx e List.mem_cons_self hxe
    rw [List.dropWhile_append_of_pos hbefore, List.dropWhile_cons_of_neg]
    simp [Definition.sameIdentity_iff]
  have hcycle : (e :: after).IsChain (Parent ds) := (List.isChain_split.mp hchain).2
  have hback : (e :: (after ++ [e])).IsChain (Parent ds) := by
    rw [← List.cons_append, List.isChain_append]
    refine ⟨hcycle, List.IsChain.singleton _, ?_⟩
    rintro x hx y ⟨⟩
    rw [List.getLast?_append_cons] at hlast
    rwa [Option.some.inj (hx.symm.trans hlast)]
  exact ⟨⟨e, after, (List.nodup_append.mp hnodup).2.1, hback⟩, rfl, hdrop.symm⟩

-- A search reports what dangles on its path and the cycle that it runs into, if any. The parent of
-- its last definition was resolved before or starts that cycle.
theorem Climb.reports {ds path : List Definition} (hn : (ds.map Definition.identity).Nodup)
    {known : Definition → Prop} {conflicts : List Conflict} (hds : ∀ d ∈ path, d ∈ ds)
    (hnodup : path.Nodup) (hchain : path.IsChain (Parent ds))
    (h : Climb ds known path conflicts) :
    ∃ cycles : List (ParentCycle ds),
      conflicts = danglingReports ds path ++ cycles.map ParentCycle.report ∧
      cycles.Pairwise (fun c c' => c.members.Disjoint c'.members) ∧
      (∀ c ∈ cycles, ∀ d ∈ c.members, d ∈ path) ∧
      ∀ d ∈ path.getLast?, ∀ p, Parent ds d p → known p ∨ ∃ c ∈ cycles, c.start = p := by
  rw [danglingReports_path hchain]
  cases h with
  | known hknown =>
      refine ⟨[], ?_, by simp, by simp, ?_⟩
      · cases hl : path.getLast? with
        | none => rfl
        | some d =>
            obtain ⟨p, hp, _⟩ := hknown d hl
            simp [danglingReports, danglingReport?_of_parent hp]
      · intro d hd p hp
        obtain ⟨q, hq, hkq⟩ := hknown d hd
        exact .inl (Parent.unique hn hp hq ▸ hkq)
  | root hlast hroot =>
      refine ⟨[], by simp [danglingReports, danglingReport?, hlast, hroot], by simp, by simp, ?_⟩
      rintro d hd p ⟨name, hname, _⟩
      obtain rfl := Option.some.inj (hd.symm.trans hlast)
      rw [hroot] at hname
      cases hname
  | dangling hlast hname hno =>
      refine ⟨[], by simp [danglingReports, danglingReport?, hlast, hname, hno], by simp, by simp, ?_⟩
      intro d hd p hp
      obtain rfl := Option.some.inj (hd.symm.trans hlast)
      exact absurd ((exists_parent_iff hn _ _ hname).mp ⟨p, hp⟩) hno
  | cycle hlast hp he =>
      obtain ⟨c, hstart, hmembers⟩ := exists_parentCycle hn hds hnodup hchain hlast hp he
      refine ⟨[c], ?_, by simp, ?_, ?_⟩
      · simp [danglingReports, danglingReport?_of_parent hp, hlast, ParentCycle.report, hstart,
          hmembers]
      · intro c' hc' d hd
        obtain rfl := List.mem_singleton.mp hc'
        rw [hmembers] at hd
        exact (List.dropWhile_sublist _).mem hd
      · intro d hd q hq
        obtain rfl := Option.some.inj (hd.symm.trans hlast)
        exact .inr ⟨c, List.mem_singleton_self c, hstart.trans (Parent.unique hn hp hq)⟩

theorem lookup_isSome_iff (entries : List ((Kind × Key) × Component)) (id : Kind × Key) :
    (entries.lookup id).isSome ↔ id ∈ entries.map Prod.fst := by
  rw [← not_iff_not, Option.not_isSome_iff_eq_none, List.lookup_eq_none_iff]
  constructor
  · intro h hin
    obtain ⟨entry, hentry, rfl⟩ := List.mem_map.mp hin
    simpa using h entry hentry
  · intro h entry hentry
    rw [bne_iff_ne]
    rintro rfl
    exact h (List.mem_map_of_mem hentry)

theorem knows_grow {ds : List Definition} (hn : (ds.map Definition.identity).Nodup) (m : Merger)
    {path : List Definition} (hpath : ∀ e ∈ path, e ∈ ds)
    {entries : List ((Kind × Key) × Component)}
    (hentries : entries.map Prod.fst = path.reverse.map Definition.identity)
    (conflicts : List Conflict) {d : Definition} (hd : d ∈ ds) :
    (m.grow entries conflicts).Knows d ↔ m.Knows d ∨ d ∈ path := by
  have hnew : (entries.lookup d.identity).isSome ↔ d ∈ path := by
    rw [lookup_isSome_iff, hentries, List.mem_map]
    constructor
    · rintro ⟨e, he, hid⟩
      rw [List.mem_reverse] at he
      rwa [← eq_of_identity hn (hpath e he) hd hid]
    · intro h
      exact ⟨d, List.mem_reverse.mpr h, rfl⟩
  rw [Merger.Knows, Merger.Knows, Merger.grow_resolved, List.lookup_append, Option.isSome_or,
    Bool.or_eq_true, hnew]

-- The state after some definitions were resolved, starting from a state with none: `done` are those
-- that it remembers, `cycles` the cycles that it reported.
structure Settled (ds : List Definition) (start m : Merger) (done : List Definition)
    (cycles : List (ParentCycle ds)) : Prop where
  grown : ∃ entries found, m = start.grow entries found ∧
    found.Perm (danglingReports ds done ++ cycles.map ParentCycle.report)
  subset : ∀ d ∈ done, d ∈ ds
  nodup : done.Nodup
  knows : ∀ d ∈ ds, m.Knows d ↔ d ∈ done
  closed : ∀ d ∈ done, ∀ p, Parent ds d p → p ∈ done
  members : ∀ c ∈ cycles, ∀ d ∈ c.members, d ∈ done
  disjoint : cycles.Pairwise fun c c' => c.members.Disjoint c'.members
  ends : ∀ d ∈ done, Ends ds cycles d
  right : m.conflicts = start.conflicts → m.Right ds

theorem Settled.init (ds : List Definition) {m : Merger} (h : m.resolved = []) :
    Settled ds m m [] [] where
  grown := ⟨[], [], m.grow_nil.symm, .refl _⟩
  subset := by simp
  nodup := .nil
  knows := by simp [Merger.Knows, h]
  closed := by simp
  members := by simp
  disjoint := .nil
  ends := by simp
  right := by simp [Merger.Right, h]

-- What a search adds to a settled state, once its path and its cycles are known.
theorem Settled.extend {ds : List Definition} (hn : (ds.map Definition.identity).Nodup)
    {start m : Merger} {done : List Definition} {cycles : List (ParentCycle ds)}
    (h : Settled ds start m done cycles) {path : List Definition} {conflicts : List Conflict}
    {entries : List ((Kind × Key) × Component)} {more : List (ParentCycle ds)}
    (hentries : entries.map Prod.fst = path.reverse.map Definition.identity)
    (hfresh : ∀ e ∈ path, e ∈ ds ∧ ¬ m.Knows e) (hnodup : path.Nodup)
    (hchain : path.IsChain (Parent ds))
    (hreports : conflicts = danglingReports ds path ++ more.map ParentCycle.report)
    (hdisjoint : more.Pairwise fun c c' => c.members.Disjoint c'.members)
    (hmembers : ∀ c ∈ more, ∀ d ∈ c.members, d ∈ path)
    (hlast : ∀ d ∈ path.getLast?, ∀ p, Parent ds d p → m.Knows p ∨ ∃ c ∈ more, c.start = p)
    (hright : conflicts = [] → m.Right ds → (m.grow entries conflicts).Right ds) :
    Settled ds start (m.grow entries conflicts) (done ++ path) (cycles ++ more) := by
  have hpath : ∀ e ∈ path, e ∈ ds := fun e he => (hfresh e he).1
  have hnotdone : ∀ e ∈ path, e ∉ done :=
    fun e he hdone => (hfresh e he).2 ((h.knows e (hpath e he)).mpr hdone)
  -- the parent of the last definition is done or starts a cycle
  have habove : ∀ d ∈ path.getLast?, ∀ p, Parent ds d p → p ∈ done ∨ ∃ c ∈ more, c.start = p :=
    fun d hd p hp => (hlast d hd p hp).imp_left (h.knows p hp.mem).mp
  have hends : ∀ d ∈ path, Ends ds (cycles ++ more) d := by
    refine forall_path hn (fun d => Ends.of_parent hn) hchain fun d hd p hp => ?_
    rcases habove d hd p hp with hdone | ⟨c, hc, rfl⟩
    · exact (h.ends p hdone).mono
    · exact .inr ⟨c, List.mem_append_right _ hc, .refl⟩
  refine ⟨?_, ?_, ?_, ?_, ?_, ?_, ?_, ?_, ?_⟩
  · obtain ⟨old, found, rfl, hfound⟩ := h.grown
    refine ⟨old ++ entries, found ++ conflicts, Merger.grow_grow .., ?_⟩
    have hsplit : danglingReports ds (done ++ path) =
        danglingReports ds done ++ danglingReports ds path := List.filterMap_append
    rw [hreports, hsplit, List.map_append]
    refine (hfound.append_right _).trans ?_
    rw [List.append_assoc, List.append_assoc]
    exact (List.perm_append_comm_assoc _ _ _).append_left _
  · exact List.forall_mem_append.mpr ⟨h.subset, hpath⟩
  · exact List.nodup_append.mpr ⟨h.nodup, hnodup, fun a ha b hb hab => hnotdone b hb (hab ▸ ha)⟩
  · intro d hd
    rw [knows_grow hn m hpath hentries conflicts hd, h.knows d hd, List.mem_append]
  · intro d hd p hp
    rw [List.mem_append] at hd ⊢
    rcases hd with hd | hd
    · exact .inl (h.closed d hd p hp)
    · rcases mem_path_or_last hn hchain hd hp with hin | hl
      · exact .inr hin
      · rcases habove d hl p hp with hdone | ⟨c, hc, rfl⟩
        · exact .inl hdone
        · exact .inr (hmembers c hc _ List.mem_cons_self)
  · intro c hc d hd
    rw [List.mem_append] at hc ⊢
    rcases hc with hc | hc
    · exact .inl (h.members c hc d hd)
    · exact .inr (hmembers c hc d hd)
  · refine List.pairwise_append.mpr ⟨h.disjoint, hdisjoint, fun c hc c' hc' d hd hd' => ?_⟩
    exact hnotdone d (hmembers c' hc' d hd') (h.members c hc d hd)
  · exact List.forall_mem_append.mpr ⟨fun d hd => (h.ends d hd).mono, hends⟩
  · intro hsame
    obtain ⟨old, found, rfl, _⟩ := h.grown
    have hnone : found = [] ∧ conflicts = [] := by simpa [List.append_assoc] using hsame
    exact hright hnone.2 (h.right (by simp [hnone.1]))

theorem Settled.resolveOne {ds : List Definition} (hn : (ds.map Definition.identity).Nodup)
    {start m : Merger} (htable : start.table.definitions = ds) {done : List Definition}
    {cycles : List (ParentCycle ds)} (h : Settled ds start m done cycles) {d : Definition}
    (hd : d ∈ ds) :
    ∃ done' cycles', Settled ds start (m.resolveOne d) done' cycles' ∧
      (∀ e ∈ done, e ∈ done') ∧ d ∈ done' := by
  have hdefs : m.table.definitions = ds := by
    obtain ⟨entries, found, rfl, _⟩ := h.grown
    exact htable
  obtain ⟨path, conflicts, hfound⟩ := found_resolve (hdefs.symm ▸ hn) (m.table.size + 1)
    (waits_nil (hdefs.symm ▸ hd)) (Nat.lt_succ_self _)
  rw [hdefs] at hfound
  obtain ⟨entries, hgrown, hentries⟩ := hfound.grown
  obtain ⟨more, hreports, hdisjoint, hmembers, hlast⟩ :=
    Climb.reports hn (fun e he => (hfound.fresh e he).1) hfound.nodup hfound.chain hfound.climb
  refine ⟨done ++ path, cycles ++ more, ?_, fun e he => List.mem_append_left _ he, ?_⟩
  · rw [Merger.resolveOne, hgrown]
    exact h.extend hn hentries hfound.fresh hfound.nodup hfound.chain hreports hdisjoint hmembers
      hlast fun hnone hbefore => hgrown ▸ (hfound.right hnone hbefore).1
  · rcases hfound.start with hhead | ⟨_, hknown | hin⟩
    · exact List.mem_append_right _ (List.mem_of_head? hhead)
    · exact List.mem_append_left _ ((h.knows d hd).mp hknown)
    · cases hin

theorem Settled.foldl_resolveOne {ds : List Definition} (hn : (ds.map Definition.identity).Nodup)
    {start : Merger} (htable : start.table.definitions = ds) (queue : List Definition)
    (hqueue : ∀ d ∈ queue, d ∈ ds) {m : Merger} {done : List Definition}
    {cycles : List (ParentCycle ds)} (h : Settled ds start m done cycles) :
    ∃ done' cycles', Settled ds start (queue.foldl Merger.resolveOne m) done' cycles' ∧
      (∀ e ∈ done, e ∈ done') ∧ ∀ e ∈ queue, e ∈ done' := by
  induction queue generalizing m done cycles with
  | nil => exact ⟨done, cycles, h, fun _ he => he, by simp⟩
  | cons d queue ih =>
      obtain ⟨hd, hrest⟩ := List.forall_mem_cons.mp hqueue
      obtain ⟨done₁, cycles₁, h₁, hkeep₁, hin⟩ := h.resolveOne hn htable hd
      obtain ⟨done₂, cycles₂, h₂, hkeep₂, hall⟩ := ih hrest h₁
      refine ⟨done₂, cycles₂, h₂, fun e he => hkeep₂ e (hkeep₁ e he), ?_⟩
      exact List.forall_mem_cons.mpr ⟨hkeep₂ d hin, hall⟩

end CardLore
