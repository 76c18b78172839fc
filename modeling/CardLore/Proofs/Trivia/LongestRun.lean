import CardLore.Proofs.Compilation.Conclusion

namespace CardLore

namespace Trivia

-- The text starts with these pieces, and no run that it starts with is longer.
structure IsLongestRun (newlines : Bool) (cs : List Char) (pieces : List (List Char))
    (rest : List Char) : Prop where
  text : cs = pieces.flatten ++ rest
  run : IsRun newlines pieces rest
  longest : ∀ others rest', cs = others.flatten ++ rest' → IsRun newlines others rest' →
    others.flatten.length ≤ pieces.flatten.length

section

variable {newlines : Bool} {piece piece' after after' cs rest rest' : List Char}
  {pieces others : List (List Char)}

-- Two texts without line ends, each up to a line end or the end of the text, are one.
theorem lineComment_unique {inside inside' : List Char} (h : ∀ d ∈ inside, d ≠ '\r' ∧ d ≠ '\n')
    (h' : ∀ d ∈ inside', d ≠ '\r' ∧ d ≠ '\n') (hafter : ∀ d ∈ after.head?, d = '\r' ∨ d = '\n')
    (hafter' : ∀ d ∈ after'.head?, d = '\r' ∨ d = '\n') (heq : inside ++ after = inside' ++ after') :
    inside = inside' := by
  have hfront : ∀ {inside after : List Char}, (∀ d ∈ inside, d ≠ '\r' ∧ d ≠ '\n') →
      (∀ d ∈ after.head?, d = '\r' ∨ d = '\n') →
      (inside ++ after).takeWhile (fun d => !isLineEnd d) = inside := by
    intro inside after hinside hafter
    have hnone : after.takeWhile (fun d => !isLineEnd d) = [] := by
      cases after with
      | nil => rfl
      | cons d after =>
          rw [List.takeWhile_cons_of_neg]
          simpa using (isLineEnd_iff d).mpr (hafter d rfl)
    rw [List.takeWhile_append_of_pos, hnone, List.append_nil]
    intro d hd
    simpa [isLineEnd] using hinside d hd
  rw [← hfront h hafter, heq, hfront h' hafter']

-- What follows the first `*)` is found from the text alone.
theorem blockComment_unique {inside inside' : List Char} (h : ¬ ['*', ')'] <:+: inside ++ ['*'])
    (h' : ¬ ['*', ')'] <:+: inside' ++ ['*'])
    (heq : inside ++ '*' :: ')' :: after = inside' ++ '*' :: ')' :: after') : inside = inside' := by
  have hsame : after = after' := by
    have hafter := afterComment?_append h after
    rw [heq, afterComment?_append h'] at hafter
    exact (Option.some.inj hafter).symm
  subst hsame
  exact List.append_cancel_right heq

theorem IsPiece.unique (h : IsPiece newlines piece after) (h' : IsPiece newlines piece' after')
    (heq : piece ++ after = piece' ++ after') : piece = piece' := by
  -- the first characters tell the kind of the piece
  cases h with
  | blank hc | lineEnd _ hc =>
      cases h' with
      | blank | lineEnd => rw [(List.cons.inj heq).1]
      | lineComment | blockComment =>
          obtain ⟨rfl, -⟩ := List.cons.inj heq
          exact absurd hc (by decide)
  | lineComment hinside hafter =>
      cases h' with
      | blank hc | lineEnd _ hc =>
          obtain ⟨rfl, -⟩ := List.cons.inj heq
          exact absurd hc (by decide)
      | lineComment hinside' hafter' =>
          simp only [List.cons_append, List.cons.injEq, true_and] at heq
          rw [lineComment_unique hinside hinside' hafter hafter' heq]
      | blockComment => exact absurd (List.cons.inj heq).1 (by decide)
  | blockComment hinside =>
      cases h' with
      | blank hc | lineEnd _ hc =>
          obtain ⟨rfl, -⟩ := List.cons.inj heq
          exact absurd hc (by decide)
      | lineComment => exact absurd (List.cons.inj heq).1 (by decide)
      | blockComment hinside' =>
          simp only [List.cons_append, List.append_assoc, List.nil_append, List.cons.injEq,
            true_and] at heq
          rw [blockComment_unique hinside hinside' heq]

-- A run that cannot be carried on starts with every other run from its place.
theorem IsRun.isPrefix (h : IsRun newlines pieces rest) (hend : EndsAt newlines rest)
    (h' : IsRun newlines others rest') (heq : pieces.flatten ++ rest = others.flatten ++ rest') :
    others <+: pieces := by
  induction h' generalizing pieces with
  | nil => exact List.nil_prefix
  | @cons piece' rest' others hpiece' _ ih =>
      rw [List.flatten_cons, List.append_assoc] at heq
      cases h with
      | nil => exact absurd hpiece' (hend piece' _ heq)
      | @cons piece _ pieces hpiece h =>
          rw [List.flatten_cons, List.append_assoc] at heq
          obtain rfl := hpiece.unique hpiece' heq
          exact List.cons_prefix_cons.mpr ⟨rfl, ih h (List.append_cancel_left heq)⟩

theorem IsRun.isLongestRun (h : IsRun newlines pieces rest) (hend : EndsAt newlines rest) :
    IsLongestRun newlines (pieces.flatten ++ rest) pieces rest where
  text := rfl
  run := h
  longest := by
    intro others rest' heq hothers
    obtain ⟨more, rfl⟩ := h.isPrefix hend hothers heq
    rw [List.flatten_append, List.length_append]
    exact Nat.le_add_right _ _

-- A piece behind a run makes it longer.
theorem IsRun.concat (h : IsRun newlines pieces (piece ++ after))
    (hpiece : IsPiece newlines piece after) : IsRun newlines (pieces ++ [piece]) after := by
  generalize hrest : piece ++ after = rest at h
  induction h with
  | nil => exact .cons hpiece .nil
  | cons hfirst _ ih =>
      rw [List.cons_append]
      refine .cons ?_ (ih hrest)
      rw [List.flatten_append, List.append_assoc, List.flatten_singleton, hrest]
      exact hfirst

theorem IsLongestRun.endsAt (h : IsLongestRun newlines cs pieces rest) : EndsAt newlines rest := by
  rintro piece after rfl hpiece
  have htext : cs = (pieces ++ [piece]).flatten ++ after := by
    rw [h.text, List.flatten_append, List.flatten_singleton, List.append_assoc]
  have hlonger := h.longest _ _ htext (h.run.concat hpiece)
  have hpos := List.length_pos_of_ne_nil hpiece.ne_nil
  rw [List.flatten_append, List.flatten_singleton, List.length_append] at hlonger
  omega

theorem IsLongestRun.unique (h : IsLongestRun newlines cs pieces rest)
    (h' : IsLongestRun newlines cs others rest') : others = pieces ∧ rest' = rest := by
  have heq : pieces.flatten ++ rest = others.flatten ++ rest' := h.text.symm.trans h'.text
  obtain ⟨more, rfl⟩ := h.run.isPrefix h.endsAt h'.run heq
  obtain ⟨less, hless⟩ := h'.run.isPrefix h'.endsAt h.run heq.symm
  have hlength := congrArg List.length hless
  simp only [List.length_append] at hlength
  obtain rfl : more = [] := List.eq_nil_of_length_eq_zero (by omega)
  rw [List.append_nil] at heq ⊢
  exact ⟨rfl, (List.append_cancel_left heq).symm⟩

theorem exists_isLongestRun (newlines : Bool) (cs : List Char) :
    ∃ pieces rest, IsLongestRun newlines cs pieces rest := by
  obtain ⟨pieces, rest, rfl, hpieces, hend⟩ := exists_isFullRun newlines cs
  exact ⟨pieces, rest, hpieces.isLongestRun hend⟩

-- The scan takes the longest run.
theorem IsLongestRun.skip (h : IsLongestRun newlines cs pieces rest) (pos : Nat) :
    (LeftOpen rest → skip newlines pos cs = .unclosed (pos + pieces.flatten.length)) ∧
    (¬ LeftOpen rest → skip newlines pos cs =
      .stopped (pos + pieces.flatten.length) rest (pieces.any isLineEndPiece)) := by
  rw [Trivia.skip, h.text, scan_run h.run, Bool.false_or]
  exact ⟨fun hopen => scan_of_leftOpen hopen _ _ _, fun hclosed => scan_of_endsAt h.endsAt hclosed _ _⟩

-- Behind a longest run, the longest run is empty.
theorem IsLongestRun.again (h : IsLongestRun newlines cs pieces rest) :
    IsLongestRun newlines rest [] rest :=
  IsRun.isLongestRun .nil h.endsAt

theorem any_isLineEndPiece : pieces.any isLineEndPiece = true ↔ ['\r'] ∈ pieces ∨ ['\n'] ∈ pieces := by
  simp only [List.any_eq_true, isLineEndPiece, Bool.or_eq_true, beq_iff_eq]
  constructor
  · rintro ⟨piece, hpiece, rfl | rfl⟩
    · exact .inl hpiece
    · exact .inr hpiece
  · rintro (hpiece | hpiece)
    · exact ⟨_, hpiece, .inl rfl⟩
    · exact ⟨_, hpiece, .inr rfl⟩

end

end Trivia

section

open Trivia

variable {newlines : Bool} {ctx : Context} {s : State} {pieces more : List (List Char)}
  {rest last : List Char}

theorem skipTriviaWith_of_leftOpen (h : IsLongestRun newlines s.rest pieces rest)
    (hopen : LeftOpen rest) :
    Parser.skipTriviaWith newlines ctx s =
      .mismatch (s.pos + pieces.flatten.length) "'*)' to close block comment"
        (s.furthest.record (s.pos + pieces.flatten.length) "'*)' to close block comment") := by
  rw [Parser.skipTriviaWith_eq, (h.skip s.pos).1 hopen]

theorem skipTriviaWith_of_closed (h : IsLongestRun newlines s.rest pieces rest)
    (hclosed : ¬ LeftOpen rest) :
    Parser.skipTriviaWith newlines ctx s = .ok (pieces.any isLineEndPiece)
      { s with pos := s.pos + pieces.flatten.length, rest } := by
  rw [Parser.skipTriviaWith_eq, (h.skip s.pos).2 hclosed]

-- Behind the run nothing more is skipped.
theorem skipTriviaWith_again {text : List Char} (h : IsLongestRun newlines text pieces s.rest)
    (hclosed : ¬ LeftOpen s.rest) : Parser.skipTriviaWith newlines ctx s = .ok false s :=
  skipTriviaWith_of_closed h.again hclosed

-- Behind a run of blanks and comments a line end has to follow, and then any trivia.
theorem exists_newline_iff (h : IsLongestRun false s.rest pieces rest)
    (hmore : IsLongestRun true rest more last) :
    (∃ t, Parser.newline ctx s = .ok () t) ↔
      (∃ c ∈ rest.head?, c = '\r' ∨ c = '\n') ∧ ¬ LeftOpen last := by
  constructor
  · rintro ⟨t, ht⟩
    obtain ⟨crossed, next, hskip, ht⟩ := bind_eq_ok_iff.mp ht
    by_cases hopen : LeftOpen rest
    · rw [skipTriviaWith_of_leftOpen h hopen] at hskip
      cases hskip
    rw [skipTriviaWith_of_closed h hopen] at hskip
    cases hskip
    obtain ⟨_, _, ⟨⟩, ht⟩ := bind_eq_ok_iff.mp ht
    cases rest with
    | nil => cases ht
    | cons c tail =>
        dsimp only at ht
        split at ht
        next hline =>
          refine ⟨⟨c, rfl, (isLineEnd_iff c).mp hline⟩, fun hlast => ?_⟩
          obtain ⟨crossed', next', hskip', -⟩ := bind_eq_ok_iff.mp ht
          rw [skipTriviaWith_of_leftOpen hmore hlast] at hskip'
          cases hskip'
        next => cases ht
  · rintro ⟨⟨c, hc, hline⟩, hclosed⟩
    obtain ⟨tail, rfl⟩ := List.head?_eq_some_iff.mp (Option.mem_def.mp hc)
    have hopen : ¬ LeftOpen (c :: tail) := by
      rintro ⟨inside, heq, -⟩
      obtain ⟨rfl, -⟩ := List.cons.inj heq
      exact absurd hline (by decide)
    refine ⟨{ s with pos := s.pos + pieces.flatten.length + more.flatten.length, rest := last }, ?_⟩
    refine bind_eq_ok_iff.mpr ⟨_, _, skipTriviaWith_of_closed h hopen,
      bind_eq_ok_iff.mpr ⟨_, _, rfl, ?_⟩⟩
    dsimp only
    rw [if_pos ((isLineEnd_iff c).mpr hline)]
    exact bind_eq_ok_iff.mpr ⟨_, _, skipTriviaWith_of_closed hmore hclosed, rfl⟩

-- Skipping trivia takes the longest run of it from every place, whether line ends are blanks or
-- not. It mismatches exactly if a block comment behind the run is never closed, and then at that
-- comment. Otherwise it stops behind the run, where no trivia begins and from where it moves no
-- further, and tells whether a line end is a piece of the run. A statement ends exactly where a
-- line end follows the run of blanks and comments, with no open comment in the trivia from there
-- on.
theorem trivia_skipped_is_longest_run (newlines : Bool) (ctx : Context) (s : State) :
    (∃ pieces rest, IsLongestRun newlines s.rest pieces rest ∧
      (∀ others rest', IsLongestRun newlines s.rest others rest' → others = pieces ∧ rest' = rest) ∧
      (LeftOpen rest → ∃ furthest, Parser.skipTriviaWith newlines ctx s =
        .mismatch (s.pos + pieces.flatten.length) "'*)' to close block comment" furthest) ∧
      (¬ LeftOpen rest → ∃ crossed t, Parser.skipTriviaWith newlines ctx s = .ok crossed t ∧
        t.pos = s.pos + pieces.flatten.length ∧ t.rest = rest ∧ EndsAt newlines rest ∧
        (crossed = true ↔ ['\r'] ∈ pieces ∨ ['\n'] ∈ pieces) ∧
        Parser.skipTriviaWith newlines ctx t = .ok false t)) ∧
    Parser.skipTrivia { ctx with newlines } s = Parser.skipTriviaWith newlines ctx s ∧
    ∃ pieces rest more last, IsLongestRun false s.rest pieces rest ∧
      IsLongestRun true rest more last ∧
      ((∃ t, Parser.newline ctx s = .ok () t) ↔
        (∃ c ∈ rest.head?, c = '\r' ∨ c = '\n') ∧ ¬ LeftOpen last) := by
  refine ⟨?_, ?_, ?_⟩
  · obtain ⟨pieces, rest, hrun⟩ := exists_isLongestRun newlines s.rest
    refine ⟨pieces, rest, hrun, fun others rest' hothers => hrun.unique hothers,
      fun hopen => ⟨_, skipTriviaWith_of_leftOpen hrun hopen⟩, fun hclosed => ?_⟩
    refine ⟨_, _, skipTriviaWith_of_closed hrun hclosed, rfl, rfl, hrun.endsAt,
      any_isLineEndPiece, ?_⟩
    exact skipTriviaWith_again hrun hclosed
  · rw [Parser.skipTrivia, Parser.skipTriviaWith_eq, Parser.skipTriviaWith_eq]
  · obtain ⟨pieces, rest, hrun⟩ := exists_isLongestRun false s.rest
    obtain ⟨more, last, hmore⟩ := exists_isLongestRun true rest
    exact ⟨pieces, rest, more, last, hrun, hmore, exists_newline_iff hrun hmore⟩

end

end CardLore
