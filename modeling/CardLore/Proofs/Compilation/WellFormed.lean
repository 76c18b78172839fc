import CardLore.Files.Sources
import CardLore.Proofs.Compilation.Outcome
import CardLore.Proofs.Merge.Success
import CardLore.Proofs.Conduct.File

namespace CardLore

-- The outcome of a run over sources, or over the files that some paths stand for.
inductive Compilation.IsOutcome : Compilation → Prop
  | sources {sources : List (String × List Char)} {limit : Nat} {c : Compilation}
      (h : Compilation.ofSources sources limit = .ok c) : IsOutcome c
  | paths {fs : FileSystem} {paths : List Path} {limit : Nat} {c : Compilation}
      (h : Compilation.ofPaths fs paths limit = .ok c) : IsOutcome c

theorem wellFormed_of_parse {fs : FileSystem} {p : Path} {limit : Nat} {f : ParsedFile}
    {t : FileTree} (h : fs.parse p limit = .ok f) (ht : f.tree? = some t) : t.WellFormed := by
  rw [FileSystem.parse] at h
  split at h
  next source _ =>
    cases hsource : ParsedFile.ofSource p.toText source limit with
    | ok g =>
        rw [hsource] at h
        cases h
        exact wellFormed_of_ofSource hsource ht
    | error m =>
        rw [hsource] at h
        cases h
  next => cases h
  next =>
    cases h
    cases ht

namespace Compilation.IsOutcome

-- A run with a corpus has merged its files, and each of their trees was read from a text.
theorem exists_files {c : Compilation} (h : c.IsOutcome) {corpus : Corpus}
    (hcorpus : c.corpus = some corpus) :
    c = ofFiles c.files ∧ ∀ f ∈ c.files, ∀ t, f.tree? = some t → t.WellFormed := by
  cases h with
  | @sources sources limit c h =>
      obtain ⟨hfiles, hc⟩ := (ofSources_eq_ok_iff sources limit c).mp h
      refine ⟨hc, fun f hf t ht => ?_⟩
      obtain ⟨s, -, hs⟩ := exists_mem_of_forall₂ hfiles hf
      exact wellFormed_of_ofSource hs ht
  | @paths fs paths limit c h =>
      obtain ⟨found, -, h⟩ := bind_ok_iff.mp h
      cases found with
      | nil =>
          cases h
          cases hcorpus
      | cons p found =>
          obtain ⟨files, hfiles, ⟨⟩⟩ := bind_ok_iff.mp h
          rw [files_ofFiles]
          refine ⟨rfl, fun f hf t ht => ?_⟩
          obtain ⟨p, -, hp⟩ := exists_mem_of_forall₂ ((mapM_eq_ok_iff _ _ _).mp hfiles) hf
          exact wellFormed_of_parse hp ht

theorem wellFormed {c : Compilation} (h : c.IsOutcome) {corpus : Corpus}
    (hcorpus : c.corpus = some corpus) : ∀ t ∈ c.trees, t.WellFormed := by
  intro t ht
  obtain ⟨f, hf, htree⟩ := List.mem_filterMap.mp ht
  exact (h.exists_files hcorpus).2 f hf t htree

theorem mergeTrees_eq {c : Compilation} (h : c.IsOutcome) {corpus : Corpus}
    (hcorpus : c.corpus = some corpus) : mergeTrees c.trees = .ok corpus := by
  rw [(h.exists_files hcorpus).1] at hcorpus
  exact ((corpus_ofFiles_iff c.files corpus).mp hcorpus).2

end Compilation.IsOutcome

-- The name of a namespace, which is empty outside of all of them.
def Key.IsScope (k : Key) : Prop := k = .empty ∨ k.Valid

theorem Key.IsScope.child {scope id : Key} (hscope : scope.IsScope) (hid : id.Valid) :
    (scope.child id).Valid := by
  rw [Key.child]
  split
  · exact hid
  · rename_i hempty
    rcases hscope with rfl | hscope
    · exact absurd rfl hempty
    · refine ⟨List.append_ne_nil_of_right_ne_nil _ hid.1, ?_⟩
      refine List.forall_mem_append.mpr ⟨List.forall_mem_append.mpr ⟨hscope.2, ?_⟩, hid.2⟩
      decide

mutual

theorem Declaration.wellBuilt_of_mem_declared {scope : Key} (hscope : scope.IsScope)
    {e : Definition} : ∀ {d : Declaration}, d.WellFormed → e ∈ d.declared scope →
      e.component.WellBuilt
  | .scope _ _ _ _, .scope hid hbody, he =>
      Declaration.wellBuilt_of_mem_declaredIn (.inr (hscope.child hid)) hbody he
  | .component _, .component hid h, he => by
      obtain rfl := List.mem_singleton.mp he
      exact h.withId (hscope.child hid)

theorem Declaration.wellBuilt_of_mem_declaredIn {scope : Key} (hscope : scope.IsScope)
    {e : Definition} : ∀ {body : List Declaration}, (∀ d ∈ body, d.WellFormed) →
      e ∈ Declaration.declaredIn scope body → e.component.WellBuilt
  | d :: rest, hbody, he => by
      obtain ⟨hd, hrest⟩ := List.forall_mem_cons.mp hbody
      rcases List.mem_append.mp he with he | he
      · exact Declaration.wellBuilt_of_mem_declared hscope hd he
      · exact Declaration.wellBuilt_of_mem_declaredIn hscope hrest he

end

theorem wellBuilt_of_mem_declared {trees : List FileTree} (htrees : ∀ t ∈ trees, t.WellFormed)
    {d : Definition} (hd : d ∈ declared trees) : d.component.WellBuilt := by
  obtain ⟨t, ht, hd⟩ := List.mem_flatMap.mp hd
  exact Declaration.wellBuilt_of_mem_declaredIn (.inl rfl) (htrees t ht) hd

theorem Resolves.wellFormed {ds : List Definition} (hds : ∀ d ∈ ds, d.component.WellFormed)
    {d : Definition} {c : Component} (hd : d ∈ ds) (h : Resolves ds d c) : c.WellFormed := by
  induction h with
  | root => exact hds _ hd
  | child hparent _ ih => exact (hds _ hd).inherit (ih hparent.mem)

-- What stands under a key in a collection of the corpus is the component of a definition with what
-- it inherits.
theorem mem_collection_iff {trees : List FileTree} {corpus : Corpus}
    (h : mergeTrees trees = .ok corpus) (kind : Kind) (key : Key) (c : Component) :
    (key, c) ∈ corpus.collection kind ↔
      ∃ d ∈ declared trees, d.kind = kind ∧ d.key = key ∧ Resolves (declared trees) d c := by
  obtain ⟨hconsistent, rfl⟩ := (mergeTrees_ok_iff trees corpus).mp h
  rw [← lookup_collection_iff hconsistent, collection_finalState hconsistent,
    lookup_eq_some_iff (nodup_keys_collection hconsistent.distinct kind _)]

-- In every corpus that a run gives, the keys of a collection are distinct, and under each key
-- stands a well-formed component of the kind with that key as its identity.
theorem compiled_components_wellFormed {c : Compilation} (h : c.IsOutcome) {corpus : Corpus}
    (hcorpus : c.corpus = some corpus) (kind : Kind) :
    ((corpus.collection kind).map (·.1)).Nodup ∧
    ∀ key component, (key, component) ∈ corpus.collection kind →
      component.kind = kind ∧ component.id = key ∧ component.WellFormed := by
  have hmerge := h.mergeTrees_eq hcorpus
  constructor
  · obtain ⟨hconsistent, rfl⟩ := (mergeTrees_ok_iff c.trees corpus).mp hmerge
    rw [collection_finalState hconsistent]
    exact nodup_keys_collection hconsistent.distinct kind _
  · intro key component hmem
    obtain ⟨d, hd, hkind, rfl, hresolves⟩ := (mem_collection_iff hmerge kind key component).mp hmem
    refine ⟨hresolves.kind_eq.trans hkind, hresolves.id_eq.trans (id_of_mem_declared hd), ?_⟩
    have hbuilt := fun e he => wellBuilt_of_mem_declared (h.wellFormed hcorpus) (d := e) he
    exact hresolves.wellFormed (fun e he => (hbuilt e he).wellFormed) hd

-- What a view of the corpus shows, where running the sources is a matter of computation.
theorem exists_corpus_of_view {β : Type} (sources : List (String × List Char)) (view : Corpus → β)
    (shown : β)
    (h : (Compilation.ofSources sources).toOption.bind (fun c => c.corpus.map view) = some shown) :
    ∃ c corpus, Compilation.ofSources sources = .ok c ∧ c.corpus = some corpus ∧
      view corpus = shown := by
  cases hrun : Compilation.ofSources sources with
  | error m =>
      rw [hrun] at h
      cases h
  | ok c =>
      rw [hrun] at h
      obtain ⟨corpus, hcorpus, hview⟩ := Option.map_eq_some_iff.mp h
      exact ⟨c, corpus, rfl, hcorpus, hview⟩

def inheritingFiles : List (String × List Char) :=
  [("a.crucible", "card a \"A\" (x:2) -> 5 \x7b unique \x7d".toList),
    ("b.crucible", "namespace n \x7b from a card b \"B\" \x7b set k = 1 \x7d \x7d".toList)]

theorem compiled_components_wellFormed_inheriting :
    ∃ c corpus, Compilation.ofSources inheritingFiles = .ok c ∧ c.corpus = some corpus ∧
      corpus.cards.map (fun e => (e.1, e.2.unique, e.2.lifetime)) =
        [(("a" : Key), true, some 5), (("n.b" : Key), true, some 5)] ∧
      ∀ key component, (key, component) ∈ corpus.collection .card →
        component.id = key ∧ component.WellFormed := by
  obtain ⟨c, corpus, hrun, hcorpus, hcards⟩ := exists_corpus_of_view inheritingFiles
    (fun corpus => corpus.cards.map fun e => (e.1, e.2.unique, e.2.lifetime))
    [(("a" : Key), true, some 5), (("n.b" : Key), true, some 5)] (by decide +kernel)
  refine ⟨c, corpus, hrun, hcorpus, hcards, fun key component hmem => ?_⟩
  exact ((compiled_components_wellFormed (.sources hrun) hcorpus .card).2 key component hmem).2

end CardLore
