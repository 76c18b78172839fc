import CardLore.Proofs.Merge.Success

namespace CardLore

-- The name behind `from` stands for the definition under the name itself, since nothing goes by the
-- name below the namespace.
def ResolvesAbsolutely (ds : List Definition) (d : Definition) (name : Key) : Prop :=
  (∃ p ∈ ds, p.kind = d.kind ∧ p.key = name) ∧
    ∀ q ∈ ds, q.kind = d.kind → q.key ≠ d.scope.child name

-- Below the namespace of `d`, the definition `e` goes by the name that stood for something
-- elsewhere.
def Captures (ds : List Definition) (e d : Definition) : Prop :=
  ∃ name ∈ d.inherits, ResolvesAbsolutely ds d name ∧ e.kind = d.kind ∧
    e.key = d.scope.child name

instance (ds : List Definition) (d : Definition) (name : Key) :
    Decidable (ResolvesAbsolutely ds d name) :=
  inferInstanceAs (Decidable (_ ∧ _))

instance (ds : List Definition) (e d : Definition) : Decidable (Captures ds e d) :=
  inferInstanceAs (Decidable (∃ name ∈ d.inherits, ResolvesAbsolutely ds d name ∧
    e.kind = d.kind ∧ e.key = d.scope.child name))

theorem declared_append (trees others : List FileTree) :
    declared (trees ++ others) = declared trees ++ declared others :=
  List.flatMap_append

section

variable {ds es : List Definition} {d p : Definition}

theorem Parent.append (h : Parent ds d p) (hfree : ∀ e ∈ es, ¬ Captures ds e d) :
    Parent (ds ++ es) d p := by
  obtain ⟨name, hname, hp, hkind, hkey⟩ := h
  refine ⟨name, hname, List.mem_append_left es hp, hkind, hkey.imp id ?_⟩
  rintro ⟨hkey, hnone⟩
  refine ⟨hkey, fun q hq hqkind => ?_⟩
  rcases List.mem_append.mp hq with hq | hq
  · exact hnone q hq hqkind
  · intro hqkey
    have habsolute : ResolvesAbsolutely ds d name := ⟨⟨p, hp, hkind, hkey⟩, hnone⟩
    exact hfree q hq ⟨name, hname, habsolute, hqkind, hqkey⟩

-- Along the line of parents: each of them is one of the old definitions and keeps its own parent.
theorem Resolves.append (hfree : ∀ d ∈ ds, ∀ e ∈ es, ¬ Captures ds e d) {c : Component}
    (h : Resolves ds d c) (hd : d ∈ ds) : Resolves (ds ++ es) d c := by
  induction h with
  | root hroot => exact .root hroot
  | child hparent _ ih => exact .child (hparent.append (hfree _ hd)) (ih hparent.mem)

end

theorem resolvedComponent_append {trees others : List FileTree}
    (hcons : Consistent (declared trees)) (hall : Consistent (declared (trees ++ others)))
    (hfree : ∀ d ∈ declared trees, ∀ e ∈ declared others, ¬ Captures (declared trees) e d)
    {d : Definition} (hd : d ∈ declared trees) :
    (finalState (trees ++ others)).resolvedComponent d =
      (finalState trees).resolvedComponent d := by
  have hmem : d ∈ declared (trees ++ others) := by
    rw [declared_append]
    exact List.mem_append_left _ hd
  have hresolves := (resolves_finalState hcons hd).append hfree hd
  rw [← declared_append] at hresolves
  exact (resolves_finalState hall hmem).unique hall.distinct hresolves

theorem collection_append {trees others : List FileTree}
    (hcons : Consistent (declared trees)) (hall : Consistent (declared (trees ++ others)))
    (hfree : ∀ d ∈ declared trees, ∀ e ∈ declared others, ¬ Captures (declared trees) e d)
    (kind : Kind) :
    (finalState trees).corpus.collection kind <+:
      (finalState (trees ++ others)).corpus.collection kind := by
  rw [collection_finalState hcons, collection_finalState hall, declared_append, List.filter_append,
    List.map_append]
  refine ⟨_, congrArg (· ++ _) (List.map_congr_left fun d hd => ?_)⟩
  rw [resolvedComponent_append hcons hall hfree (List.mem_of_mem_filter hd)]

-- A file that captures no name of the others leaves their components as they are: each collection
-- goes on behind the one that there was without the file.
theorem merge_keeps_components_of_other_files {trees : List FileTree} {tree : FileTree}
    {corpus extended : Corpus} (hok : mergeTrees trees = .ok corpus)
    (hextended : mergeTrees (trees ++ [tree]) = .ok extended)
    (hfree : ∀ d ∈ declared trees, ∀ e ∈ tree.declared, ¬ Captures (declared trees) e d) :
    ∀ kind, corpus.collection kind <+: extended.collection kind ∧
      ∀ key c, (corpus.collection kind).lookup key = some c →
        (extended.collection kind).lookup key = some c := by
  obtain ⟨hcons, rfl⟩ := (mergeTrees_ok_iff trees corpus).mp hok
  obtain ⟨hall, rfl⟩ := (mergeTrees_ok_iff (trees ++ [tree]) extended).mp hextended
  have hsingle : declared [tree] = tree.declared := List.append_nil _
  intro kind
  have hfront := collection_append hcons hall (hsingle.symm ▸ hfree) kind
  refine ⟨hfront, fun key c hlookup => ?_⟩
  obtain ⟨added, hadded⟩ := hfront
  rw [← hadded, List.lookup_append, hlookup, Option.some_or]

-- A file that stands in the namespace of the lamp. It has an aspect under the very key that would
-- capture the lamp's parent, and a card that inherits from the lamp.
def lampAddition : FileTree :=
  ⟨"", [], [.scope (.ofChars ['h']) []
    [.component ⟨.ofChars ['b'], [],
      .aspect { id := .ofChars ['b'], label := [], description := [] }, none, .ofFile ""⟩,
     .component ⟨.ofChars ['c'], [],
      .card { id := .ofChars ['c'], label := [] }, some (.ofChars ['a']), .ofFile ""⟩]
    (.ofFile "")]⟩

theorem merge_keeps_components_of_other_files_lamp :
    ∃ corpus extended record, mergeTrees lampFiles = .ok corpus ∧
      mergeTrees (lampFiles ++ [lampAddition]) = .ok extended ∧
      (∀ d ∈ declared lampFiles, ∀ e ∈ lampAddition.declared,
        ¬ Captures (declared lampFiles) e d) ∧
      (corpus.collection .card).lookup lamp.key = some record ∧
      (extended.collection .card).lookup lamp.key = some record := by
  have hok : mergeTrees lampFiles = .ok (finalState lampFiles).corpus := mergeTrees_of_nil rfl
  have hextended : mergeTrees (lampFiles ++ [lampAddition]) =
      .ok (finalState (lampFiles ++ [lampAddition])).corpus := mergeTrees_of_nil rfl
  have hfree : ∀ d ∈ declared lampFiles, ∀ e ∈ lampAddition.declared,
      ¬ Captures (declared lampFiles) e d := by
    decide
  have hkept := merge_keeps_components_of_other_files hok hextended hfree .card
  obtain ⟨record, hrecord⟩ : ∃ record,
      ((finalState lampFiles).corpus.collection .card).lookup lamp.key = some record := ⟨_, rfl⟩
  exact ⟨_, _, record, hok, hextended, hfree, hrecord, hkept.2 lamp.key record hrecord⟩

end CardLore
