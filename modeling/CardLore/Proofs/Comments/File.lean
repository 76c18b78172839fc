import CardLore.Proofs.Compilation.Conclusion

namespace CardLore

-- Only trivia is left of a text if and only if this is so without its comments.
theorem skip_to_end_iff (pos pos' : Nat) (cs : List Char) :
    (∃ stop crossed, Trivia.skip true pos cs = .stopped stop [] crossed) ↔
      ∃ stop crossed, Trivia.skip true pos' (stripComments cs) = .stopped stop [] crossed := by
  have hscans := scansAlike true pos pos' cs
  generalize Trivia.skip true pos cs = left at hscans
  generalize Trivia.skip true pos' (stripComments cs) = right at hscans
  cases hscans with
  | unclosed => constructor <;> rintro ⟨_, _, ⟨⟩⟩
  | @stopped stop stop' rest crossed _ =>
      constructor
      · rintro ⟨_, _, ⟨⟩⟩
        exact ⟨stop', crossed, rfl⟩
      · rintro ⟨_, _, h⟩
        obtain rfl := (stripComments_eq_nil_iff rest).mp (Trivia.Scan.stopped.inj h).2.1
        exact ⟨stop, crossed, rfl⟩

-- The reply accepts a text up to trivia, as the tree tells, places apart.
def AcceptsAs (file : String) (tree : FileTree) (r : Reply (List Attribute × List Declaration)) :
    Prop :=
  ∃ found s, r = .ok found s ∧ FileTree.eraseSpans ⟨file, found.1, found.2⟩ = tree ∧
    ∃ stop crossed, Trivia.skip true s.pos s.rest = .stopped stop [] crossed

theorem ofSource_erased_iff {file : String} {source : List Char} {limit : Nat} {tree : FileTree} :
    (∃ t, ParsedFile.ofSource file source limit = .ok ⟨file, .ok t⟩ ∧ t.eraseSpans = tree) ↔
      AcceptsAs file tree (Parser.accepted (.ofSource file source limit) (.ofSource source)) := by
  constructor
  · rintro ⟨t, h, htree⟩
    obtain ⟨rfl, s, pos, crossed, haccepted, hskip⟩ := ofSource_eq_tree_iff.mp h
    exact ⟨_, s, haccepted, htree, pos, crossed, hskip⟩
  · rintro ⟨found, s, haccepted, htree, pos, crossed, hskip⟩
    exact ⟨_, ofSource_eq_tree_iff.mpr ⟨rfl, s, pos, crossed, haccepted, hskip⟩, htree⟩

-- A source is read as a tree if and only if it is so without its comments, places apart: what is
-- left of a comment is a blank, so it neither ends a line nor joins or splits words.
theorem comments_read_as_blanks (file : String) (source : List Char) (limit : Nat)
    (tree : FileTree) :
    (∃ t, ParsedFile.ofSource file source limit = .ok ⟨file, .ok t⟩ ∧ t.eraseSpans = tree) ↔
      ∃ t, ParsedFile.ofSource file (stripComments source) limit = .ok ⟨file, .ok t⟩ ∧
        t.eraseSpans = tree := by
  have hctx : (Settings.twice ⟨file, limit⟩).Aligned (.ofSource file source limit)
      (.ofSource file (stripComments source) limit) := ⟨rfl, rfl, rfl⟩
  have hreply := Tandem.accepted.follows (s := .ofSource source)
    (t := .ofSource (stripComments source)) hctx trivial trivial rfl
  rw [ofSource_erased_iff, ofSource_erased_iff]
  generalize Parser.accepted (.ofSource file source limit) (.ofSource source) = r at hreply
  generalize Parser.accepted (.ofSource file (stripComments source) limit)
    (.ofSource (stripComments source)) = r' at hreply
  cases hreply with
  | @ok found found' s t hsame hadvances =>
      obtain ⟨hattributes, hdeclarations⟩ := hsame
      have hend := skip_to_end_iff s.pos t.pos s.rest
      rw [← hadvances.stripped] at hend
      have herased : FileTree.eraseSpans ⟨file, found'.1, found'.2⟩ =
          FileTree.eraseSpans ⟨file, found.1, found.2⟩ := by
        rw [FileTree.eraseSpans, FileTree.eraseSpans, eraseBodySpans_of_agrees hdeclarations,
          hattributes]
      constructor
      · rintro ⟨_, _, ⟨⟩, htree, hskip⟩
        exact ⟨_, _, rfl, herased.trans htree, hend.mp hskip⟩
      · rintro ⟨_, _, ⟨⟩, htree, hskip⟩
        exact ⟨_, _, rfl, herased.symm.trans htree, hend.mpr hskip⟩
  | mismatch => constructor <;> rintro ⟨_, _, ⟨⟩, -⟩
  | fault => constructor <;> rintro ⟨_, _, ⟨⟩, -⟩
  | beyond h => exact absurd h (Nat.lt_irrefl limit)

end CardLore
