import CardLore.Proofs.Merge.Reports

namespace CardLore

-- A call on a merge that is under way.
inductive MergeCall where
  | merge (tree : FileTree)
  | resolveInheritance
  | finish

namespace MergeCall

def isMerge : MergeCall → Bool
  | merge _ => true
  | _ => false

end MergeCall

-- A merge together with the definitions that wait for their parents, the latest last. A search puts
-- its definition behind those that wait and takes the last one off again when it comes back.
structure MergeSession where
  merger : Merger
  waiting : List Definition

namespace MergeSession

def empty : MergeSession := ⟨.empty, []⟩

def resolve : (bound : Nat) → Definition → MergeSession → Component × MergeSession
  | 0, d, s => (d.component, s)
  | bound + 1, d, s =>
    match s.merger.resolved.lookup (d.kind, d.key) with
    | some component => (component, s)
    | none => match d.inherits with
      | none => (d.component, { s with merger := s.merger.remember d d.component })
      | some name =>
        if s.waiting.any (·.sameIdentity d) then
          let members := s.waiting.dropWhile fun e => !e.sameIdentity d
          (d.component, { s with merger := s.merger.addConflict (.cycle d members) })
        else match s.merger.table.resolve? d.kind name d.scope with
          | none =>
            (d.component, { s with
              merger := (s.merger.addConflict (.unresolved d name)).remember d d.component })
          | some parent =>
            let (inherited, s) := resolve bound parent { s with waiting := s.waiting ++ [d] }
            let component := d.component.inherit inherited
            (component, ⟨s.merger.remember d component, s.waiting.dropLast⟩)

def resolveOne (s : MergeSession) (d : Definition) : MergeSession :=
  (resolve (s.merger.table.size + 1) d s).2

def resolveInheritance (s : MergeSession) : MergeSession :=
  s.merger.table.all.foldl resolveOne s

def finish (s : MergeSession) : Except (List Conflict) Corpus × MergeSession :=
  let s := s.resolveInheritance
  (if s.merger.conflicts.isEmpty then .ok s.merger.corpus else .error s.merger.conflicts, s)

def call (s : MergeSession) : MergeCall → MergeSession
  | .merge tree => { s with merger := s.merger.merge tree }
  | .resolveInheritance => s.resolveInheritance
  | .finish => s.finish.2

-- The state after some calls on a fresh merge.
def run (calls : List MergeCall) : MergeSession :=
  calls.foldl call empty

-- A search leaves those that wait as it found them, and does to the merge what the search does that
-- is handed them.
theorem resolve_eq (bound : Nat) (d : Definition) (s : MergeSession) :
    resolve bound d s = ((Merger.resolve bound s.waiting d s.merger).1,
      ⟨(Merger.resolve bound s.waiting d s.merger).2, s.waiting⟩) := by
  induction bound generalizing d s with
  | zero => rfl
  | succ bound ih =>
      rw [resolve, Merger.resolve]
      cases s.merger.resolved.lookup (d.kind, d.key) with
      | some component => rfl
      | none =>
          cases d.inherits with
          | none => rfl
          | some name =>
              dsimp only
              split
              · rfl
              · cases s.merger.table.resolve? d.kind name d.scope with
                | none => rfl
                | some parent => simp only [ih, List.dropLast_concat]

theorem resolveOne_eq (s : MergeSession) (d : Definition) (h : s.waiting = []) :
    s.resolveOne d = ⟨s.merger.resolveOne d, []⟩ := by
  rw [resolveOne, resolve_eq, h]
  rfl

theorem resolveInheritance_eq (s : MergeSession) (h : s.waiting = []) :
    s.resolveInheritance = ⟨s.merger.resolveInheritance, []⟩ := by
  have hfold : ∀ (queue : List Definition) (m : Merger),
      queue.foldl resolveOne ⟨m, []⟩ = ⟨queue.foldl Merger.resolveOne m, []⟩ := by
    intro queue
    induction queue with
    | nil => exact fun m => rfl
    | cons d queue ih =>
        intro m
        rw [List.foldl_cons, resolveOne_eq _ _ rfl, ih, List.foldl_cons]
  obtain ⟨m, waiting⟩ := s
  subst h
  exact hfold m.table.all m

theorem finish_eq (s : MergeSession) (h : s.waiting = []) :
    s.finish = (s.merger.finish.1, ⟨s.merger.finish.2, []⟩) := by
  rw [finish, resolveInheritance_eq s h]
  rfl

end MergeSession

namespace Merger

def call (m : Merger) : MergeCall → Merger
  | .merge tree => m.merge tree
  | .resolveInheritance => m.resolveInheritance
  | .finish => m.finish.2

end Merger

namespace MergeSession

theorem call_eq (s : MergeSession) (h : s.waiting = []) (c : MergeCall) :
    s.call c = ⟨s.merger.call c, []⟩ := by
  cases c with
  | merge tree => rw [call, h]; rfl
  | resolveInheritance => exact resolveInheritance_eq s h
  | finish => rw [call, finish_eq s h]; rfl

-- Nothing waits between calls, so a run with the list of those that wait is a run without it.
theorem run_eq (calls : List MergeCall) : run calls = ⟨calls.foldl Merger.call .empty, []⟩ := by
  induction calls using List.reverseRecOn with
  | nil => rfl
  | append_singleton calls c ih =>
      rw [run, List.foldl_concat, ← run, call_eq _ (by rw [ih]), ih, List.foldl_concat]

end MergeSession

namespace Merger

-- Whatever the first state has, the second one has too: its definitions under their kinds and keys,
-- its conflicts in front of all others, and its resolved components.
structure Grows (m m' : Merger) : Prop where
  definitions : m.table.definitions <+: m'.table.definitions
  conflicts : m.conflicts <+: m'.conflicts
  resolved : m.resolved <+: m'.resolved

namespace Grows

theorem refl (m : Merger) : m.Grows m :=
  ⟨List.prefix_refl _, List.prefix_refl _, List.prefix_refl _⟩

theorem trans {m m' m'' : Merger} (h : m.Grows m') (h' : m'.Grows m'') : m.Grows m'' :=
  ⟨h.definitions.trans h'.definitions, h.conflicts.trans h'.conflicts,
    h.resolved.trans h'.resolved⟩

theorem foldl {α : Type} {step : Merger → α → Merger} (h : ∀ m a, Grows m (step m a)) (m : Merger)
    (xs : List α) : m.Grows (xs.foldl step m) := by
  induction xs generalizing m with
  | nil => exact .refl m
  | cons a xs ih => exact (h m a).trans (ih _)

theorem grow (m : Merger) (entries : List ((Kind × Key) × Component)) (conflicts : List Conflict) :
    m.Grows (m.grow entries conflicts) :=
  ⟨List.prefix_refl _, List.prefix_append _ _, List.prefix_append _ _⟩

theorem apply (m : Merger) (e : MergeEvent) : m.Grows (m.apply e) := by
  cases e with
  | opening key attributes => exact ⟨List.prefix_refl _, List.prefix_refl _, List.prefix_refl _⟩
  | definition scope d =>
      rw [Merger.apply, Merger.define]
      split
      · exact ⟨List.prefix_refl _, List.prefix_append _ _, List.prefix_refl _⟩
      · split <;> exact ⟨List.prefix_append _ _, List.prefix_refl _, List.prefix_refl _⟩

theorem merge (m : Merger) (t : FileTree) : m.Grows (m.merge t) := by
  have hstart : m.Grows
      { m with attributes := m.attributes ++ t.attributes, files := m.files + 1 } :=
    ⟨List.prefix_refl _, List.prefix_refl _, List.prefix_refl _⟩
  exact hstart.trans (.foldl apply _ _)

theorem resolve (bound : Nat) (stack : List Definition) (d : Definition) (m : Merger) :
    m.Grows (Merger.resolve bound stack d m).2 := by
  induction bound generalizing stack d m with
  | zero => exact .refl m
  | succ bound ih =>
      rcases Merger.resolve_succ bound stack d m with
        ⟨c, -, hr⟩ | ⟨-, ⟨-, hr⟩ | ⟨name, -, ⟨-, hr⟩ |
          ⟨-, ⟨-, hr⟩ | ⟨parent, inherited, m', -, habove, hr⟩⟩⟩⟩
      · rw [hr]
        exact .refl m
      · rw [hr]
        exact .grow m _ _
      · rw [hr]
        exact .grow m _ _
      · rw [hr]
        exact .grow m _ _
      · rw [hr]
        have hup := ih (stack ++ [d]) parent m
        rw [habove] at hup
        exact hup.trans (.grow m' _ _)

theorem resolveInheritance (m : Merger) : m.Grows m.resolveInheritance :=
  .foldl (fun m d => .resolve _ _ d m) _ _

theorem call (m : Merger) (c : MergeCall) : m.Grows (m.call c) := by
  cases c with
  | merge tree => exact .merge m tree
  | resolveInheritance => exact .resolveInheritance m
  | finish => exact .resolveInheritance m

theorem lookup? {m m' : Merger} (h : m.Grows m') {kind : Kind} {key : Key} {d : Definition}
    (hd : m.table.lookup? kind key = some d) : m'.table.lookup? kind key = some d := by
  obtain ⟨more, hmore⟩ := h.definitions
  rw [DefinitionTable.lookup?] at hd
  rw [DefinitionTable.lookup?, ← hmore, List.find?_append, hd, Option.some_or]

theorem lookup_resolved {m m' : Merger} (h : m.Grows m') {id : Kind × Key} {c : Component}
    (hc : m.resolved.lookup id = some c) : m'.resolved.lookup id = some c := by
  obtain ⟨more, hmore⟩ := h.resolved
  rw [← hmore, List.lookup_append, hc, Option.some_or]

end Grows

-- No kind and key has two definitions in the table or two resolved components.
structure Distinct (m : Merger) : Prop where
  table : (m.table.definitions.map Definition.identity).Nodup
  resolved : (m.resolved.map Prod.fst).Nodup

namespace Distinct

theorem empty : Merger.empty.Distinct := ⟨List.nodup_nil, List.nodup_nil⟩

theorem add {m : Merger} (h : m.Distinct) {d : Definition}
    (hd : m.table.lookup? d.kind d.key = none) :
    ((m.table.add d).definitions.map Definition.identity).Nodup := by
  rw [DefinitionTable.add, List.map_append, List.map_singleton, List.nodup_append]
  refine ⟨h.table, List.nodup_singleton _, fun id hid _ hmem heq => ?_⟩
  obtain ⟨e, he, rfl⟩ := List.mem_map.mp hid
  obtain rfl := List.mem_singleton.mp hmem
  obtain ⟨hkind, hkey⟩ := Prod.mk.inj heq
  exact (lookup?_eq_none_iff _ _ _).mp hd e he hkind hkey

theorem apply {m : Merger} (h : m.Distinct) (e : MergeEvent) : (m.apply e).Distinct := by
  cases e with
  | opening key attributes => exact ⟨h.table, h.resolved⟩
  | definition scope d =>
      rw [Merger.apply, Merger.define]
      split
      · exact ⟨h.table, h.resolved⟩
      next hnone => split <;> exact ⟨h.add hnone, h.resolved⟩

theorem merge {m : Merger} (h : m.Distinct) (t : FileTree) : (m.merge t).Distinct := by
  have hfold : ∀ (es : List MergeEvent) (m : Merger), m.Distinct →
      (es.foldl Merger.apply m).Distinct := by
    intro es
    induction es with
    | nil => exact fun m hm => hm
    | cons e es ih => exact fun m hm => ih _ (hm.apply e)
  exact hfold _ _ ⟨h.table, h.resolved⟩

-- A search enters the definitions of its path, none of which was resolved before.
theorem resolveOne {m : Merger} (h : m.Distinct) {d : Definition} (hd : d ∈ m.table.definitions) :
    (m.resolveOne d).Distinct ∧ (m.resolveOne d).Knows d ∧ (m.resolveOne d).table = m.table := by
  obtain ⟨path, conflicts, hfound⟩ := found_resolve h.table (m.table.size + 1) (waits_nil hd)
    (Nat.lt_succ_self _)
  obtain ⟨entries, hgrown, hentries⟩ := hfound.grown
  have hpath : ∀ e ∈ path, e ∈ m.table.definitions := fun e he => (hfound.fresh e he).1
  rw [Merger.resolveOne, hgrown]
  refine ⟨⟨h.table, ?_⟩, ?_, rfl⟩
  · rw [grow_resolved, List.map_append, hentries, List.nodup_append]
    refine ⟨h.resolved, ?_, ?_⟩
    · rw [List.map_reverse, List.nodup_reverse]
      refine List.Nodup.map_on (fun e he e' he' heq => ?_) hfound.nodup
      exact eq_of_identity h.table (hpath e he) (hpath e' he') heq
    · rintro _ hold _ hnew rfl
      obtain ⟨e, he, rfl⟩ := List.mem_map.mp hnew
      exact (hfound.fresh e (List.mem_reverse.mp he)).2 ((lookup_isSome_iff _ _).mpr hold)
  · rw [knows_grow h.table m hpath hentries conflicts hd]
    rcases hfound.start with hhead | ⟨-, hknown | hin⟩
    · exact .inr (List.mem_of_head? hhead)
    · exact .inl hknown
    · cases hin

theorem foldl_resolveOne {m : Merger} (h : m.Distinct) {queue : List Definition}
    (hqueue : ∀ d ∈ queue, d ∈ m.table.definitions) :
    (queue.foldl Merger.resolveOne m).Distinct ∧
      (queue.foldl Merger.resolveOne m).table = m.table ∧
      ∀ d ∈ queue, (queue.foldl Merger.resolveOne m).Knows d := by
  induction queue generalizing m with
  | nil => exact ⟨h, rfl, by simp⟩
  | cons d queue ih =>
      obtain ⟨hd, hqueue⟩ := List.forall_mem_cons.mp hqueue
      obtain ⟨hone, hknows, htable⟩ := h.resolveOne hd
      obtain ⟨hall, htable', hrest⟩ := ih hone (htable ▸ hqueue)
      refine ⟨hall, htable'.trans htable, List.forall_mem_cons.mpr ⟨?_, hrest⟩⟩
      obtain ⟨c, hc⟩ := Option.isSome_iff_exists.mp hknows
      have hgrows : (m.resolveOne d).Grows (queue.foldl Merger.resolveOne (m.resolveOne d)) :=
        .foldl (fun m d => .resolve _ _ d m) _ _
      exact Option.isSome_iff_exists.mpr ⟨c, hgrows.lookup_resolved hc⟩

theorem resolveInheritance {m : Merger} (h : m.Distinct) :
    m.resolveInheritance.Distinct ∧
      ∀ d ∈ m.resolveInheritance.table.all, m.resolveInheritance.Knows d := by
  obtain ⟨hall, htable, hknows⟩ := h.foldl_resolveOne fun d hd => (mem_all m.table d).mp hd
  refine ⟨hall, ?_⟩
  rw [Merger.resolveInheritance, htable]
  exact hknows

theorem call {m : Merger} (h : m.Distinct) (c : MergeCall) : (m.call c).Distinct := by
  cases c with
  | merge tree => exact h.merge tree
  | resolveInheritance => exact h.resolveInheritance.1
  | finish => exact h.resolveInheritance.1

theorem foldl_call {m : Merger} (h : m.Distinct) (calls : List MergeCall) :
    (calls.foldl Merger.call m).Distinct := by
  induction calls generalizing m with
  | nil => exact h
  | cons c calls ih => exact ih (h.call c)

end Distinct

-- Where all definitions are resolved, no search does anything.
theorem resolveInheritance_of_knows {m : Merger} (h : ∀ d ∈ m.table.all, m.Knows d) :
    m.resolveInheritance = m := by
  have hone : ∀ d, m.Knows d → m.resolveOne d = m := by
    intro d hd
    obtain ⟨c, hc⟩ := Option.isSome_iff_exists.mp hd
    change m.resolved.lookup (d.kind, d.key) = some c at hc
    simp only [resolveOne, resolve, hc]
  have hfold : ∀ queue : List Definition, (∀ d ∈ queue, m.Knows d) →
      queue.foldl resolveOne m = m := by
    intro queue
    induction queue with
    | nil => exact fun _ => rfl
    | cons d queue ih =>
        intro hqueue
        obtain ⟨hd, hqueue⟩ := List.forall_mem_cons.mp hqueue
        rw [List.foldl_cons, hone d hd, ih hqueue]
  exact hfold _ h

theorem resolveInheritance_resolveInheritance {m : Merger} (h : m.Distinct) :
    m.resolveInheritance.resolveInheritance = m.resolveInheritance :=
  resolveInheritance_of_knows h.resolveInheritance.2

theorem call_of_not_isMerge (m : Merger) {c : MergeCall} (hc : c.isMerge = false) :
    m.call c = m.resolveInheritance := by
  cases c with
  | merge tree => cases hc
  | resolveInheritance => rfl
  | finish => rfl

theorem foldl_call_resolved {m : Merger} (h : m.Distinct) {calls : List MergeCall}
    (hcalls : ∀ c ∈ calls, c.isMerge = false) :
    calls.foldl call m.resolveInheritance = m.resolveInheritance := by
  induction calls with
  | nil => rfl
  | cons c calls ih =>
      obtain ⟨hc, hcalls⟩ := List.forall_mem_cons.mp hcalls
      rw [List.foldl_cons, call_of_not_isMerge _ hc, resolveInheritance_resolveInheritance h,
        ih hcalls]

theorem finish_resolveInheritance {m : Merger} (h : m.Distinct) :
    m.resolveInheritance.finish = m.finish := by
  rw [finish, resolveInheritance_resolveInheritance h]
  rfl

end Merger

-- After any calls nothing waits, and no kind and key has two definitions or two resolved
-- components. Further calls keep all definitions, all conflicts in their order and all resolved
-- components. After a first call that is no merge, more such calls change nothing, so they report
-- nothing new, and the outcome stays what it was when the first one was made. No call ends for want
-- of stack, see `Merger.resolve`.
theorem merge_calls_only_grow (calls : List MergeCall) :
    let s := MergeSession.run calls
    s.waiting = [] ∧ s.merger = calls.foldl Merger.call .empty ∧ s.merger.Distinct ∧
    (∀ more, s.merger.Grows (MergeSession.run (calls ++ more)).merger ∧
      (∀ kind key d, s.merger.table.lookup? kind key = some d →
        (MergeSession.run (calls ++ more)).merger.table.lookup? kind key = some d) ∧
      ∀ id c, s.merger.resolved.lookup id = some c →
        (MergeSession.run (calls ++ more)).merger.resolved.lookup id = some c) ∧
    ∀ first more, first.isMerge = false → (∀ c ∈ more, c.isMerge = false) →
      MergeSession.run (calls ++ first :: more) = MergeSession.run (calls ++ [first]) ∧
      (MergeSession.run (calls ++ first :: more)).finish.1 = s.finish.1 := by
  intro s
  have hs : s = ⟨calls.foldl Merger.call .empty, []⟩ := MergeSession.run_eq calls
  have hdistinct : s.merger.Distinct := by
    rw [hs]
    exact Merger.Distinct.empty.foldl_call calls
  refine ⟨by rw [hs], by rw [hs], hdistinct, fun more => ?_, fun first more hfirst hmore => ?_⟩
  · have hgrows : s.merger.Grows (MergeSession.run (calls ++ more)).merger := by
      rw [MergeSession.run_eq, List.foldl_append, hs]
      exact .foldl .call _ _
    exact ⟨hgrows, fun _ _ _ => hgrows.lookup?, fun _ _ => hgrows.lookup_resolved⟩
  · have hrun : ∀ more : List MergeCall, (∀ c ∈ more, c.isMerge = false) →
        MergeSession.run (calls ++ first :: more) = ⟨s.merger.resolveInheritance, []⟩ := by
      intro more hmore
      rw [MergeSession.run_eq, List.foldl_append, List.foldl_cons,
        Merger.call_of_not_isMerge _ hfirst, hs]
      rw [hs] at hdistinct
      rw [Merger.foldl_call_resolved hdistinct hmore]
    rw [hrun more hmore, hrun [] nofun]
    refine ⟨rfl, ?_⟩
    rw [MergeSession.finish_eq _ rfl, MergeSession.finish_eq s (by rw [hs]),
      Merger.finish_resolveInheritance hdistinct]

-- A card that names itself as its parent.
def ownParentFile : FileTree :=
  ⟨"", [], [.component ⟨.ofChars ['a'], [], .card { id := .ofChars ['a'], label := [] },
    some (.ofChars ['a']), .ofFile ""⟩]⟩

-- The cycle is reported by the first call and by none of the others, although each of them fails.
theorem merge_calls_only_grow_failing :
    let calls : List MergeCall := [.merge ownParentFile]
    let again : List MergeCall := [.resolveInheritance, .finish]
    MergeCall.isMerge .finish = false ∧ (∀ c ∈ again, c.isMerge = false) ∧
    (MergeSession.run (calls ++ [.finish])).merger.conflicts.map (·.code) = ["E302"] ∧
    MergeSession.run (calls ++ .finish :: again) = MergeSession.run (calls ++ [.finish]) ∧
    (MergeSession.run (calls ++ .finish :: again)).finish.1 = (MergeSession.run calls).finish.1 := by
  intro calls again
  have hagain : ∀ c ∈ again, c.isMerge = false := by simp [again, MergeCall.isMerge]
  obtain ⟨-, -, -, -, hmore⟩ := merge_calls_only_grow calls
  exact ⟨rfl, hagain, rfl, hmore .finish again rfl hagain⟩

end CardLore
