import CardLore.Proofs.Merge.Success

namespace CardLore

theorem declared_perm {trees others : List FileTree} (h : trees.Perm others) :
    (declared trees).Perm (declared others) :=
  h.flatMap_right _

theorem Consistent.perm {ds es : List Definition} (h : ds.Perm es) (hds : Consistent ds) :
    Consistent es := by
  have hmem : ∀ d, d ∈ ds ↔ d ∈ es := fun _ => h.mem_iff
  refine ⟨(h.map _).nodup_iff.mp hds.distinct, ?_, ?_⟩
  · intro d hd name hname
    rw [← resolvable_congr hmem]
    exact hds.resolvable d ((hmem d).mpr hd) name hname
  · rw [← parent_congr hmem]
    exact hds.acyclic

theorem resolvedComponent_perm {trees others : List FileTree} (h : trees.Perm others)
    (hcons : Consistent (declared trees)) {d : Definition} (hd : d ∈ declared trees) :
    (finalState trees).resolvedComponent d = (finalState others).resolvedComponent d := by
  have hmem : ∀ d, d ∈ declared trees ↔ d ∈ declared others := fun _ => (declared_perm h).mem_iff
  have hothers := hcons.perm (declared_perm h)
  have hresolves := resolves_congr hmem (resolves_finalState hcons hd)
  exact hresolves.unique hothers.distinct (resolves_finalState hothers ((hmem d).mp hd))

theorem collection_perm {trees others : List FileTree} (h : trees.Perm others)
    (hcons : Consistent (declared trees)) (kind : Kind) :
    ((finalState trees).corpus.collection kind).Perm
      ((finalState others).corpus.collection kind) := by
  rw [collection_finalState hcons, collection_finalState (hcons.perm (declared_perm h))]
  have hsame : ∀ d ∈ (declared trees).filter (·.kind = kind),
      (d.key, (finalState trees).resolvedComponent d) =
        (d.key, (finalState others).resolvedComponent d) := by
    intro d hd
    rw [resolvedComponent_perm h hcons (List.mem_of_mem_filter hd)]
  rw [List.map_congr_left hsame]
  exact ((declared_perm h).filter _).map _

theorem lookup_collection_perm {trees others : List FileTree} (h : trees.Perm others)
    (hcons : Consistent (declared trees)) (kind : Kind) (key : Key) :
    ((finalState trees).corpus.collection kind).lookup key =
      ((finalState others).corpus.collection kind).lookup key := by
  have hmem : ∀ d, d ∈ declared trees ↔ d ∈ declared others := fun _ => (declared_perm h).mem_iff
  refine Option.ext fun c => ?_
  rw [lookup_collection_iff hcons, lookup_collection_iff (hcons.perm (declared_perm h))]
  refine exists_congr fun d => and_congr (hmem d) (and_congr_right' (and_congr_right' ?_))
  exact ⟨resolves_congr hmem, resolves_congr fun d => (hmem d).symm⟩

-- Two namespaces that hold the same, in any order.
def NamespaceContent.Same (a b : NamespaceContent) : Prop :=
  a.components.Perm b.components ∧ a.attributes.Perm b.attributes

theorem content?_perm {openings openings' : List (List Attribute)} {members members' : List Key}
    (ho : openings.Perm openings') (hm : members.Perm members') :
    Option.Rel NamespaceContent.Same (content? openings members) (content? openings' members') := by
  have hnil : (openings = [] ∧ members = []) ↔ (openings' = [] ∧ members' = []) := by
    rw [← List.length_eq_zero_iff, ← List.length_eq_zero_iff, ho.length_eq, hm.length_eq,
      List.length_eq_zero_iff, List.length_eq_zero_iff]
  by_cases h : openings = [] ∧ members = []
  · rw [content?, content?, if_pos h, if_pos (hnil.mp h)]
    exact .none
  · rw [content?, content?, if_neg h, if_neg fun h' => h (hnil.mpr h')]
    exact .some ⟨hm, ho.flatten⟩

-- Resolving parents changes neither the namespaces nor the attributes of the run.
theorem namespaces_finalState (trees : List FileTree) (key : Key) :
    (finalState trees).namespaces.lookup key =
      contentOf? key (trees.flatMap FileTree.events) := by
  obtain ⟨done, cycles, hsettled, _⟩ := exists_settled_trees trees
  obtain ⟨entries, found, hgrown, _⟩ := hsettled.grown
  rw [hgrown]
  exact (collected_trees trees).namespaces key

theorem attributes_finalState (trees : List FileTree) :
    (finalState trees).attributes = trees.flatMap FileTree.attributes := by
  obtain ⟨done, cycles, hsettled, _⟩ := exists_settled_trees trees
  obtain ⟨entries, found, hgrown, _⟩ := hsettled.grown
  rw [hgrown]
  exact attributes_foldl_merge .empty trees

theorem namespaces_perm {trees others : List FileTree} (h : trees.Perm others)
    (hcons : Consistent (declared trees)) (key : Key) :
    Option.Rel NamespaceContent.Same ((finalState trees).namespaces.lookup key)
      ((finalState others).namespaces.lookup key) := by
  have hevents : (trees.flatMap FileTree.events).Perm (others.flatMap FileTree.events) :=
    h.flatMap_right _
  have hothers := hcons.perm (declared_perm h)
  rw [namespaces_finalState, namespaces_finalState, contentOf?, contentOf?, definitionsOf_events,
    definitionsOf_events, kept_eq_self _ hcons.distinct, kept_eq_self _ hothers.distinct]
  exact content?_perm (hevents.filterMap _) (((declared_perm h).filter _).map _)

-- Merging the same files in another order succeeds as well, and gives the same corpus up to the
-- order of its lists. It succeeds apart from the depth of the stack, see `Merger.resolve`.
theorem merge_ignores_file_order {trees others : List FileTree} (h : trees.Perm others) :
    ((∃ corpus, mergeTrees trees = .ok corpus) ↔ ∃ corpus, mergeTrees others = .ok corpus) ∧
    ∀ corpus corpus', mergeTrees trees = .ok corpus → mergeTrees others = .ok corpus' →
      (∀ kind, (corpus.collection kind).Perm (corpus'.collection kind)) ∧
      (∀ kind key, (corpus.collection kind).lookup key = (corpus'.collection kind).lookup key) ∧
      (∀ key, corpus.get? key = corpus'.get? key) ∧ corpus.size = corpus'.size ∧
      (∀ key, Option.Rel NamespaceContent.Same (corpus.namespaces.lookup key)
        (corpus'.namespaces.lookup key)) ∧
      corpus.attributes.Perm corpus'.attributes := by
  constructor
  · simp only [mergeTrees_ok_iff, exists_and_left, exists_eq, and_true]
    exact ⟨Consistent.perm (declared_perm h), Consistent.perm (declared_perm h).symm⟩
  · intro corpus corpus' hok hok'
    obtain ⟨hcons, rfl⟩ := (mergeTrees_ok_iff trees corpus).mp hok
    obtain ⟨_, rfl⟩ := (mergeTrees_ok_iff others corpus').mp hok'
    refine ⟨collection_perm h hcons, lookup_collection_perm h hcons, ?_, ?_,
      namespaces_perm h hcons, ?_⟩
    · intro key
      simp only [Corpus.get?, lookup_collection_perm h hcons]
    · simp only [Corpus.size, (collection_perm h hcons _).length_eq]
    · change (finalState trees).attributes.Perm (finalState others).attributes
      rw [attributes_finalState, attributes_finalState]
      exact h.flatMap_right _

theorem merge_ignores_file_order_lamp :
    lampFiles.Perm lampFiles.reverse ∧
    ∃ corpus corpus', mergeTrees lampFiles = .ok corpus ∧
      mergeTrees lampFiles.reverse = .ok corpus' ∧
      (∀ key, corpus.get? key = corpus'.get? key) ∧ corpus.size = corpus'.size := by
  have hperm : lampFiles.Perm lampFiles.reverse := (List.reverse_perm _).symm
  have hok : mergeTrees lampFiles = .ok (finalState lampFiles).corpus := mergeTrees_of_nil rfl
  obtain ⟨corpus', hok'⟩ := (merge_ignores_file_order hperm).1.mp ⟨_, hok⟩
  obtain ⟨_, _, hget, hsize, _⟩ := (merge_ignores_file_order hperm).2 _ _ hok hok'
  exact ⟨hperm, _, _, hok, hok', hget, hsize⟩

end CardLore
