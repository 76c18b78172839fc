import CardLore.Proofs.Construction.Invariant
import CardLore.Proofs.Merge.Reports

namespace CardLore

open Relation

-- No two definitions of one kind and key, every parent there, and no cycle of parents.
structure Consistent (ds : List Definition) : Prop where
  distinct : (ds.map Definition.identity).Nodup
  resolvable : ∀ d ∈ ds, ∀ name, d.inherits = some name → Resolvable ds d name
  acyclic : ∀ d, ¬ TransGen (Parent ds) d d

theorem danglingReports_eq_nil_iff (ds : List Definition) :
    danglingReports ds ds = [] ↔
      ∀ d ∈ ds, ∀ name, d.inherits = some name → Resolvable ds d name := by
  rw [danglingReports, List.filterMap_eq_nil_iff]
  refine forall₂_congr fun d _ => ?_
  cases h : d.inherits with
  | none => simp [danglingReport?, h]
  | some name => simp [danglingReport?, h]

-- A cycle of the parent relation can be cut down to one that passes each member once: the one that
-- is reported.
theorem conflicts_eq_nil_iff (trees : List FileTree) :
    (finalState trees).conflicts = [] ↔ Consistent (declared trees) := by
  obtain ⟨done, cycles, hsettled, hdone⟩ := exists_settled_trees trees
  obtain ⟨entries, found, hgrown, hfound⟩ := hsettled.grown
  have hperm := hfound.trans ((hdone.filterMap _).append_right _)
  have hconflicts : (finalState trees).conflicts = [] ↔
      ((declared trees).map Definition.identity).Nodup ∧
        danglingReports (kept (declared trees)) (kept (declared trees)) = [] ∧ cycles = [] := by
    rw [hgrown, Merger.grow_conflicts, (collected_trees trees).conflicts, definitionsOf_events,
      List.append_eq_nil_iff, repeats_eq_nil_iff, ← List.length_eq_zero_iff (l := found),
      hperm.length_eq, List.length_eq_zero_iff, List.append_eq_nil_iff, List.map_eq_nil_iff]
    rfl
  have hcycles : cycles = [] ↔ ∀ d, ¬ TransGen (Parent (kept (declared trees))) d d := by
    constructor
    · rintro rfl d hd
      obtain ⟨c, hc, _⟩ := hsettled.exists_cycle hdone hd
      cases hc
    · intro hacyclic
      rw [List.eq_nil_iff_forall_not_mem]
      exact fun c _ => hacyclic c.start c.transGen_start
  rw [hconflicts, danglingReports_eq_nil_iff, hcycles]
  constructor
  · rintro ⟨hdistinct, hresolvable, hacyclic⟩
    rw [kept_eq_self _ hdistinct] at hresolvable hacyclic
    exact ⟨hdistinct, hresolvable, hacyclic⟩
  · rintro ⟨hdistinct, hresolvable, hacyclic⟩
    rw [kept_eq_self _ hdistinct]
    exact ⟨hdistinct, hresolvable, hacyclic⟩

theorem mergeTrees_ok_iff (trees : List FileTree) (corpus : Corpus) :
    mergeTrees trees = .ok corpus ↔
      Consistent (declared trees) ∧ corpus = (finalState trees).corpus := by
  rw [← conflicts_eq_nil_iff]
  by_cases h : (finalState trees).conflicts = []
  · simp [mergeTrees_of_nil h, h, eq_comm]
  · simp [mergeTrees_of_ne_nil h, h]

-- The table holds all definitions of a consistent run, and each has the component that it resolves
-- to.
theorem definitions_finalState {trees : List FileTree} (h : Consistent (declared trees)) :
    (finalState trees).table.definitions = declared trees := by
  obtain ⟨done, cycles, hsettled, _⟩ := exists_settled_trees trees
  obtain ⟨entries, found, hgrown, _⟩ := hsettled.grown
  rw [hgrown, Merger.grow_table, (collected_trees trees).table, definitionsOf_events,
    kept_eq_self _ h.distinct]

theorem resolves_finalState {trees : List FileTree} (h : Consistent (declared trees))
    {d : Definition} (hd : d ∈ declared trees) :
    Resolves (declared trees) d ((finalState trees).resolvedComponent d) := by
  obtain ⟨done, cycles, hsettled, hdone⟩ := exists_settled_trees trees
  have hnone : (finalState trees).conflicts = [] := (conflicts_eq_nil_iff trees).mpr h
  have hsame : (finalState trees).conflicts = (trees.foldl Merger.merge .empty).conflicts := by
    rw [hnone, (collected_trees trees).conflicts, definitionsOf_events]
    exact ((repeats_eq_nil_iff _).mpr h.distinct).symm
  have hright := hsettled.right hsame
  have hkept := kept_eq_self _ h.distinct
  rw [hkept] at hright
  have hknown : (finalState trees).Knows d := by
    rw [hsettled.knows d (hkept.symm ▸ hd), hdone.mem_iff, hkept]
    exact hd
  obtain ⟨c, hc⟩ := Option.isSome_iff_exists.mp hknown
  have hvalue : (finalState trees).resolvedComponent d = c := by
    change ((finalState trees).resolved.lookup d.identity).getD d.component = c
    rw [hc, Option.getD_some]
  rw [hvalue]
  exact hright d hd c hc

-- Taking the records of one kind out of some entries and wrapping them again keeps the entries of
-- that kind.
theorem map_filterMap_record {R : Type} (wrap : R → Component) (kind : Kind)
    (record? : Key × Component → Option (Key × R))
    (h : ∀ entry, (record? entry).map (fun (k, r) => (k, wrap r)) =
      Option.guard (·.2.kind = kind) entry) (entries : List (Key × Component)) :
    ((entries.filterMap record?).map fun (k, r) => (k, wrap r)) =
      entries.filter (·.2.kind = kind) := by
  rw [List.map_filterMap, ← List.filterMap_eq_filter]
  exact congrArg (entries.filterMap ·) (funext h)

theorem collection_ofComponents (entries : List (Key × Component)) (kind : Kind) :
    (Corpus.ofComponents entries).collection kind = entries.filter (·.2.kind = kind) := by
  cases kind <;> refine map_filterMap_record _ _ _ ?_ entries <;> rintro ⟨k, c⟩ <;> cases c <;> rfl

theorem flatMap_kinds (ks : List Kind) (hn : ks.Nodup) (kind : Kind) (own : List Definition) :
    (ks.flatMap fun k => if k = kind then own else []) = if kind ∈ ks then own else [] := by
  induction ks with
  | nil => rfl
  | cons k ks ih =>
      obtain ⟨hk, hn⟩ := List.nodup_cons.mp hn
      rw [List.flatMap_cons, ih hn]
      by_cases hkk : k = kind
      · subst hkk
        simp [hk]
      · simp [hkk, Ne.symm hkk]

-- Of each kind, the list of all definitions has those of the table, in their order.
theorem filter_all (t : DefinitionTable) (kind : Kind) :
    t.all.filter (·.kind = kind) = t.definitions.filter (·.kind = kind) := by
  have hpart : ∀ k, (t.definitions.filter (·.kind = k)).filter (·.kind = kind) =
      if k = kind then t.definitions.filter (·.kind = kind) else [] := by
    intro k
    rw [List.filter_filter]
    by_cases hk : k = kind
    · subst hk
      simp
    · rw [if_neg hk, List.filter_eq_nil_iff]
      rintro d _ hd
      simp only [Bool.and_eq_true, decide_eq_true_eq] at hd
      exact hk (hd.2.symm.trans hd.1)
  rw [DefinitionTable.all, List.filter_flatMap]
  simp only [hpart]
  rw [flatMap_kinds t.kinds (nodup_eraseDups _), ite_eq_left_iff]
  intro habsent
  rw [eq_comm, List.filter_eq_nil_iff]
  intro d hd hk
  exact habsent ((mem_kinds t kind).mpr ⟨d, hd, by simpa using hk⟩)

theorem lookup_eq_some_iff {β : Type} {entries : List (Key × β)}
    (hn : (entries.map Prod.fst).Nodup) (key : Key) (c : β) :
    entries.lookup key = some c ↔ (key, c) ∈ entries := by
  induction entries with
  | nil => simp
  | cons entry rest ih =>
      obtain ⟨k, e⟩ := entry
      obtain ⟨hk, hn⟩ := List.nodup_cons.mp hn
      by_cases hkey : key = k
      · subst hkey
        have hnot : (key, c) ∉ rest := fun h => hk (List.mem_map.mpr ⟨_, h, rfl⟩)
        simp [hnot, eq_comm]
      · simp [List.lookup_cons, beq_false_of_ne hkey, ih hn, hkey]

-- The collections of a consistent run.
theorem collection_finalState {trees : List FileTree} (h : Consistent (declared trees))
    (kind : Kind) :
    (finalState trees).corpus.collection kind = ((declared trees).filter (·.kind = kind)).map
      fun d => (d.key, (finalState trees).resolvedComponent d) := by
  have hsame : (finalState trees).corpus.collection kind =
      (Corpus.ofComponents ((finalState trees).table.all.map fun d =>
        (d.key, (finalState trees).resolvedComponent d))).collection kind := by
    cases kind <;> rfl
  rw [hsame, collection_ofComponents, List.filter_map, ← definitions_finalState h, ← filter_all]
  refine congrArg _ (List.filter_congr fun d hd => ?_)
  rw [mem_all, definitions_finalState h] at hd
  simp only [Function.comp_apply, (resolves_finalState h hd).kind_eq]

theorem nodup_keys_collection {ds : List Definition} (hn : (ds.map Definition.identity).Nodup)
    (kind : Kind) (component : Definition → Component) :
    (((ds.filter (·.kind = kind)).map fun d => (d.key, component d)).map Prod.fst).Nodup := by
  have hsub : ((ds.filter (·.kind = kind)).map Definition.identity).Nodup :=
    hn.sublist ((List.filter_sublist).map _)
  rw [List.map_map]
  refine List.Nodup.map_on (fun d hd e he hkey => ?_) hsub.of_map
  rw [List.mem_filter, decide_eq_true_eq] at hd he
  refine eq_of_identity hn hd.1 he.1 ?_
  simp only [Definition.identity, hd.2, he.2]
  exact congrArg _ hkey

theorem lookup_collection_iff {trees : List FileTree} (h : Consistent (declared trees))
    (kind : Kind) (key : Key) (c : Component) :
    ((finalState trees).corpus.collection kind).lookup key = some c ↔
      ∃ d ∈ declared trees, d.kind = kind ∧ d.key = key ∧ Resolves (declared trees) d c := by
  rw [collection_finalState h, lookup_eq_some_iff (nodup_keys_collection h.distinct kind _),
    List.mem_map]
  constructor
  · rintro ⟨d, hd, heq⟩
    rw [List.mem_filter, decide_eq_true_eq] at hd
    obtain ⟨rfl, rfl⟩ := Prod.mk.inj heq
    exact ⟨d, hd.1, hd.2, rfl, resolves_finalState h hd.1⟩
  · rintro ⟨d, hd, hkind, rfl, hc⟩
    refine ⟨d, by simpa using ⟨hd, hkind⟩, ?_⟩
    rw [(resolves_finalState h hd).unique h.distinct hc]

mutual

theorem Declaration.id_of_mem_declared {scope : Key} {d : Definition} :
    ∀ {declaration : Declaration}, d ∈ declaration.declared scope → d.component.id = d.key
  | .scope _ _ _ _, h => Declaration.id_of_mem_declaredIn h
  | .component _, h => by
      obtain rfl := List.mem_singleton.mp h
      exact Component.withId_id _ _

theorem Declaration.id_of_mem_declaredIn {scope : Key} {d : Definition} :
    ∀ {body : List Declaration}, d ∈ Declaration.declaredIn scope body → d.component.id = d.key
  | declaration :: rest, h => by
      rcases List.mem_append.mp h with hd | hd
      · exact Declaration.id_of_mem_declared hd
      · exact Declaration.id_of_mem_declaredIn hd

end

theorem id_of_mem_declared {trees : List FileTree} {d : Definition} (hd : d ∈ declared trees) :
    d.component.id = d.key := by
  obtain ⟨t, _, ht⟩ := List.mem_flatMap.mp hd
  exact Declaration.id_of_mem_declaredIn ht

-- Merging gives a corpus exactly if the definitions are consistent. The record under a key has that
-- key as its identity, and its other fields have the values of the nearest ancestors that set them;
-- together this says what the record is. Whether a stack is deep enough for a long chain of parents
-- is no question here, see `Merger.resolve`.
theorem merge_fills_from_nearest_ancestor (trees : List FileTree) :
    ((∃ corpus, mergeTrees trees = .ok corpus) ↔ Consistent (declared trees)) ∧
    ∀ corpus, mergeTrees trees = .ok corpus → ∀ d ∈ declared trees,
      ∃ chain record, Lineage (declared trees) d chain ∧
        (corpus.collection d.kind).lookup d.key = some record ∧ record.id = d.key ∧
        record.FilledFrom (chain.map (·.component)) ∧
        ∀ other : Component, other.kind = d.kind → other.id = d.key →
          other.FilledFrom (chain.map (·.component)) → other = record := by
  constructor
  · constructor
    · rintro ⟨corpus, hok⟩
      exact ((mergeTrees_ok_iff trees corpus).mp hok).1
    · intro h
      exact ⟨_, (mergeTrees_ok_iff trees _).mpr ⟨h, rfl⟩⟩
  · intro corpus hok d hd
    obtain ⟨h, rfl⟩ := (mergeTrees_ok_iff trees corpus).mp hok
    have hresolves := resolves_finalState h hd
    obtain ⟨chain, hlineage, hfilled⟩ := hresolves.exists_lineage
    have hid := hresolves.id_eq.trans (id_of_mem_declared hd)
    refine ⟨chain, (finalState trees).resolvedComponent d, hlineage, ?_, hid, hfilled, ?_⟩
    · exact (lookup_collection_iff h _ _ _).mpr ⟨d, hd, rfl, rfl, hresolves⟩
    · intro other hkind hother hfrom
      exact hfrom.unique (hkind.trans hresolves.kind_eq.symm) (hother.trans hid.symm) hfilled

-- A card in a namespace that sets nothing but its label, and its parent in another file.
def lamp : Definition :=
  .ofDeclaration (.ofChars ['h']) ⟨.ofChars ['a'], [],
    .card { id := .ofChars ['a'], label := .ofChars ['L'] }, some (.ofChars ['b']), .ofFile ""⟩

def lampFiles : List FileTree :=
  [⟨"", [], [.scope (.ofChars ['h']) [] [.component ⟨.ofChars ['a'], [],
    .card { id := .ofChars ['a'], label := .ofChars ['L'] }, some (.ofChars ['b']),
    .ofFile ""⟩] (.ofFile "")]⟩,
   ⟨"", [], [.component ⟨.ofChars ['b'], [],
    .card { id := .ofChars ['b'], label := .ofChars ['M'], unique := true, lifetime := some 3 },
    none, .ofFile ""⟩]⟩]

theorem merge_fills_from_nearest_ancestor_lamp :
    lamp ∈ declared lampFiles ∧
    ∃ corpus chain record, mergeTrees lampFiles = .ok corpus ∧
      Lineage (declared lampFiles) lamp chain ∧
      (corpus.collection .card).lookup lamp.key = some record ∧ record.id = lamp.key ∧
      record.FilledFrom (chain.map (·.component)) ∧
      record = .card
        { id := .ofChars ['h', '.', 'a'], label := .ofChars ['L'], unique := true,
          lifetime := some 3 } := by
  have hmem : lamp ∈ declared lampFiles := List.mem_cons_self
  have hok : mergeTrees lampFiles = .ok (finalState lampFiles).corpus := mergeTrees_of_nil rfl
  obtain ⟨chain, record, hlineage, hlookup, hid, hfilled, _⟩ :=
    (merge_fills_from_nearest_ancestor lampFiles).2 _ hok lamp hmem
  exact ⟨hmem, _, chain, record, hok, hlineage, hlookup, hid, hfilled,
    (Option.some.inj hlookup).symm⟩

end CardLore
