import CardLore.Parser.Trivia
import Mathlib.Data.List.TakeWhile

namespace CardLore

theorem isLineEnd_iff (c : Char) : Trivia.isLineEnd c = true ↔ c = '\r' ∨ c = '\n' := by
  simp [Trivia.isLineEnd]

-- What a character does that opens no comment with those behind it.
theorem scan_char {c : Char} {rest : List Char} (hline : ∀ inside, c = '/' → rest ≠ '/' :: inside)
    (hblock : ∀ inside, c = '(' → rest ≠ '*' :: inside) (newlines : Bool) (pos : Nat)
    (crossed : Bool) :
    Trivia.scan newlines .open pos crossed (c :: rest) =
      if Trivia.isLineEnd c then
        if newlines then Trivia.scan newlines .open (pos + 1) true rest
        else .stopped pos (c :: rest) crossed
      else if Trivia.isSpace c then Trivia.scan newlines .open (pos + 1) crossed rest
      else .stopped pos (c :: rest) crossed := by
  rw [Trivia.scan]
  · simp
  · exact fun start inside h => absurd h (by simp)
  · exact fun start h => absurd h (by simp)
  · exact fun inside _ hc hrest => hline inside hc hrest
  · exact fun inside _ hc hrest => hblock inside hc hrest

-- The scan stops at a character that starts no trivia.
theorem scan_stops {newlines : Bool} {c : Char} {rest : List Char}
    (hline : ∀ inside, c = '/' → rest ≠ '/' :: inside)
    (hblock : ∀ inside, c = '(' → rest ≠ '*' :: inside) (hspace : ¬ Trivia.isSpace c = true)
    (hend : newlines = true → ¬ Trivia.isLineEnd c = true) (pos : Nat) (crossed : Bool) :
    Trivia.scan newlines .open pos crossed (c :: rest) = .stopped pos (c :: rest) crossed := by
  rw [scan_char hline hblock, if_neg hspace]
  cases newlines with
  | false => simp
  | true => rw [if_neg (hend rfl)]

theorem scan_lineComment {inside : List Char} (h : ∀ d ∈ inside, d ≠ '\r' ∧ d ≠ '\n')
    (newlines : Bool) (pos : Nat) (crossed : Bool) (cs : List Char) :
    Trivia.scan newlines .lineComment pos crossed (inside ++ cs) =
      Trivia.scan newlines .lineComment (pos + inside.length) crossed cs := by
  induction inside generalizing pos with
  | nil => rfl
  | cons d inside ih =>
      obtain ⟨hd, hinside⟩ := List.forall_mem_cons.mp h
      have hline : Trivia.isLineEnd d = false := by simp [Trivia.isLineEnd, hd]
      rw [List.cons_append, Trivia.scan, if_neg (by simp [hline]), if_pos (.inl rfl), ih hinside]
      · rw [List.length_cons, Nat.add_assoc, Nat.add_comm 1]
      all_goals (intros; contradiction)

-- A block comment does not end before its closing characters.
theorem not_closed_here {d : Char} {inside cs tail : List Char}
    (h : ¬ ['*', ')'] <:+: d :: inside ++ ['*']) (hd : d = '*')
    (htail : inside ++ '*' :: ')' :: cs = ')' :: tail) : False := by
  subst hd
  cases inside with
  | nil => cases htail
  | cons e inside =>
      obtain ⟨rfl, -⟩ := List.cons.inj htail
      exact h ⟨[], inside ++ ['*'], rfl⟩

theorem scan_blockComment {inside : List Char} (h : ¬ ['*', ')'] <:+: inside ++ ['*'])
    (newlines : Bool) (start pos : Nat) (crossed : Bool) (cs : List Char) :
    Trivia.scan newlines (.blockComment start) pos crossed (inside ++ '*' :: ')' :: cs) =
      Trivia.scan newlines .open (pos + inside.length + 2) crossed cs := by
  induction inside generalizing pos with
  | nil => rw [List.nil_append, Trivia.scan, List.length_nil, Nat.add_zero]
  | cons d inside ih =>
      have hrest : ¬ ['*', ')'] <:+: inside ++ ['*'] := fun hin =>
        h (hin.trans (List.suffix_cons _ _).isInfix)
      rw [List.cons_append, Trivia.scan, ih hrest]
      · rw [List.length_cons, Nat.add_right_comm pos 1, ← Nat.add_assoc]
      · exact fun tail => not_closed_here h

theorem scan_unclosed {inside : List Char} (h : ¬ ['*', ')'] <:+: inside) (newlines : Bool)
    (start pos : Nat) (crossed : Bool) :
    Trivia.scan newlines (.blockComment start) pos crossed inside = .unclosed start := by
  induction inside generalizing pos with
  | nil => rfl
  | cons d inside ih =>
      rw [Trivia.scan, ih fun hin => h (hin.trans (List.suffix_cons _ _).isInfix)]
      rintro tail rfl rfl
      exact h ⟨[], tail, rfl⟩

-- The closing characters of a block comment are not found earlier by reading one more character.
theorem not_infix_cons {c : Char} {inside : List Char}
    (hclose : ∀ rest, c = '*' → inside = ')' :: rest → False)
    (h : ¬ ['*', ')'] <:+: inside ++ ['*']) : ¬ ['*', ')'] <:+: c :: inside ++ ['*'] := by
  intro hin
  rw [List.cons_append] at hin
  rcases List.infix_cons_iff.mp hin with hfront | hin
  · obtain ⟨rfl, hnext⟩ := List.cons_prefix_cons.mp hfront
    cases inside with
    | nil => cases hnext.eq_of_length rfl
    | cons d inside =>
        obtain ⟨rfl, -⟩ := List.cons_prefix_cons.mp hnext
        exact hclose inside rfl rfl
  · exact h hin

namespace Trivia

-- The text is one complete piece of trivia where `after` follows it. The line end behind a line
-- comment does not belong to it, and a block comment is closed by the first `*)` inside of it.
inductive IsPiece (newlines : Bool) : (text after : List Char) → Prop
  | blank {c : Char} {after : List Char} (hc : c = ' ' ∨ c = '\t') : IsPiece newlines [c] after
  | lineEnd {c : Char} {after : List Char} (hmode : newlines = true) (hc : c = '\r' ∨ c = '\n') :
      IsPiece newlines [c] after
  | lineComment {inside after : List Char} (hinside : ∀ d ∈ inside, d ≠ '\r' ∧ d ≠ '\n')
      (hafter : ∀ d ∈ after.head?, d = '\r' ∨ d = '\n') :
      IsPiece newlines ('/' :: '/' :: inside) after
  | blockComment {inside after : List Char} (hinside : ¬ ['*', ')'] <:+: inside ++ ['*']) :
      IsPiece newlines ('(' :: '*' :: (inside ++ ['*', ')'])) after

-- The pieces are trivia, one after the other, where `rest` follows them.
inductive IsRun (newlines : Bool) : List (List Char) → List Char → Prop
  | nil {rest : List Char} : IsRun newlines [] rest
  | cons {piece rest : List Char} {pieces : List (List Char)}
      (hpiece : IsPiece newlines piece (pieces.flatten ++ rest)) (h : IsRun newlines pieces rest) :
      IsRun newlines (piece :: pieces) rest

-- No piece of trivia begins here.
def EndsAt (newlines : Bool) (rest : List Char) : Prop :=
  ∀ piece after, rest = piece ++ after → ¬ IsPiece newlines piece after

-- A block comment is opened here, and nothing behind its first two characters closes it.
def LeftOpen (rest : List Char) : Prop :=
  ∃ inside, rest = '(' :: '*' :: inside ∧ ¬ ['*', ')'] <:+: inside

-- The piece is a line end, and so not inside of a comment.
def isLineEndPiece (piece : List Char) : Bool :=
  piece == ['\r'] || piece == ['\n']

-- The text is cut into a run of trivia and what stands behind it, where no more of it begins.
structure IsFullRun (newlines : Bool) (cs : List Char) (pieces : List (List Char))
    (rest : List Char) : Prop where
  text : cs = pieces.flatten ++ rest
  run : IsRun newlines pieces rest
  ends : EndsAt newlines rest

section

variable {newlines crossed crossed' : Bool} {pos last start : Nat}
  {piece after cs inside rest : List Char} {pieces : List (List Char)} {c : Char}

theorem IsPiece.ne_nil (h : IsPiece newlines piece after) : piece ≠ [] := by
  cases h <;> exact List.cons_ne_nil _ _

theorem exists_closed_of_infix (h : ['*', ')'] <:+: inside) :
    ∃ body after, inside = body ++ '*' :: ')' :: after ∧ ¬ ['*', ')'] <:+: body ++ ['*'] := by
  induction inside with
  | nil => exact absurd h (by decide)
  | cons c inside ih =>
      by_cases hclose : c = '*' ∧ inside.head? = some ')'
      · obtain ⟨rfl, hhead⟩ := hclose
        obtain ⟨after, rfl⟩ := List.head?_eq_some_iff.mp hhead
        exact ⟨[], after, rfl, by decide⟩
      · rcases List.infix_cons_iff.mp h with hfront | hin
        · obtain ⟨rfl, after, rfl⟩ := List.cons_prefix_cons.mp hfront
          exact absurd ⟨rfl, rfl⟩ hclose
        · obtain ⟨body, after, rfl, hbody⟩ := ih hin
          refine ⟨c :: body, after, rfl, not_infix_cons ?_ hbody⟩
          rintro tail rfl rfl
          exact hclose ⟨rfl, rfl⟩

-- A line comment ends with its line or with the text.
theorem isPiece_lineComment (newlines : Bool) (cs : List Char) :
    ∃ inside after, cs = inside ++ after ∧ IsPiece newlines ('/' :: '/' :: inside) after := by
  refine ⟨cs.takeWhile fun d => !isLineEnd d, cs.dropWhile fun d => !isLineEnd d,
    List.takeWhile_append_dropWhile.symm, .lineComment ?_ ?_⟩
  · intro d hd
    simpa [isLineEnd] using List.mem_takeWhile_imp hd
  · intro d hd
    have hline := List.head?_dropWhile_not (fun d => !isLineEnd d) cs
    rw [Option.mem_def.mp hd] at hline
    exact (isLineEnd_iff d).mp (by simpa using hline)

theorem EndsAt.ne_lineComment (h : EndsAt newlines rest) : rest ≠ '/' :: '/' :: inside := by
  rintro rfl
  obtain ⟨inside, after, rfl, hpiece⟩ := isPiece_lineComment newlines inside
  exact h _ after rfl hpiece

theorem EndsAt.not_infix (h : EndsAt newlines ('(' :: '*' :: inside)) : ¬ ['*', ')'] <:+: inside := by
  intro hin
  obtain ⟨body, after, rfl, hbody⟩ := exists_closed_of_infix hin
  exact h ('(' :: '*' :: (body ++ ['*', ')'])) after (by simp) (.blockComment hbody)

theorem EndsAt.not_isSpace (h : EndsAt newlines (c :: rest)) : ¬ isSpace c = true := by
  intro hc
  have hc : c = ' ' ∨ c = '\t' := by simpa [isSpace] using hc
  exact h [c] rest rfl (.blank hc)

theorem EndsAt.not_lineEnd (h : EndsAt true (c :: rest)) : ¬ (c = '\r' ∨ c = '\n') :=
  fun hc => h [c] rest rfl (.lineEnd rfl hc)

-- No comment is opened by the first character.
theorem EndsAt.opens_nothing (h : EndsAt newlines (c :: rest)) (hclosed : ¬ LeftOpen (c :: rest)) :
    (∀ inside, c = '/' → rest ≠ '/' :: inside) ∧ ∀ inside, c = '(' → rest ≠ '*' :: inside := by
  constructor
  · rintro inside rfl rfl
    exact h.ne_lineComment rfl
  · rintro inside rfl rfl
    exact hclosed ⟨inside, rfl, h.not_infix⟩

-- Pieces are taken as long as one begins.
theorem exists_isFullRun (newlines : Bool) (cs : List Char) :
    ∃ pieces rest, IsFullRun newlines cs pieces rest := by
  induction hn : cs.length using Nat.strongRecOn generalizing cs with
  | ind n ih =>
      by_cases hend : EndsAt newlines cs
      · exact ⟨[], cs, rfl, .nil, hend⟩
      · simp only [EndsAt, not_forall, not_not] at hend
        obtain ⟨piece, after, rfl, hpiece⟩ := hend
        have hpos := List.length_pos_iff.mpr hpiece.ne_nil
        rw [List.length_append] at hn
        obtain ⟨pieces, rest, rfl, hpieces, hend⟩ := ih after.length (by omega) after rfl
        exact ⟨piece :: pieces, rest, by rw [List.flatten_cons, List.append_assoc],
          .cons hpiece hpieces, hend⟩

-- Line ends stop a line comment, and whatever is scanned there is scanned outside of it.
theorem scan_behind_lineComment (hafter : ∀ d ∈ after.head?, d = '\r' ∨ d = '\n') (pos : Nat)
    (crossed : Bool) :
    scan newlines .lineComment pos crossed after = scan newlines .open pos crossed after := by
  cases after with
  | nil => rfl
  | cons d after => rcases hafter d rfl with rfl | rfl <;> rfl

-- One step of the scan: a piece is passed over as a whole.
theorem scan_piece (h : IsPiece newlines piece after) (pos : Nat) (crossed : Bool) :
    scan newlines .open pos crossed (piece ++ after) =
      scan newlines .open (pos + piece.length) (crossed || isLineEndPiece piece) after := by
  cases h with
  | blank hc =>
      rcases hc with rfl | rfl <;> simp [scan, isLineEnd, isSpace, isLineEndPiece]
  | lineEnd hmode hc =>
      subst hmode
      rcases hc with rfl | rfl <;> simp [scan, isLineEnd, isLineEndPiece]
  | @lineComment inside _ hinside hafter =>
      have hpiece : isLineEndPiece ('/' :: '/' :: inside) = false := by simp [isLineEndPiece]
      rw [List.cons_append, List.cons_append, scan, scan_lineComment hinside,
        scan_behind_lineComment hafter, hpiece, Bool.or_false, List.length_cons, List.length_cons]
      congr 1
      omega
  | @blockComment inside _ hinside =>
      have hpiece : isLineEndPiece ('(' :: '*' :: (inside ++ ['*', ')'])) = false := by
        simp [isLineEndPiece]
      rw [List.cons_append, List.cons_append, List.append_assoc, scan, List.cons_append,
        List.singleton_append, scan_blockComment hinside, hpiece, Bool.or_false]
      congr 1
      simp only [List.length_cons, List.length_append, List.length_nil]
      omega

-- And so is a run, piece by piece.
theorem scan_run (h : IsRun newlines pieces rest) (pos : Nat) (crossed : Bool) :
    scan newlines .open pos crossed (pieces.flatten ++ rest) =
      scan newlines .open (pos + pieces.flatten.length) (crossed || pieces.any isLineEndPiece)
        rest := by
  induction h generalizing pos crossed with
  | nil => simp
  | cons hpiece _ ih =>
      rw [List.flatten_cons, List.append_assoc, scan_piece hpiece, ih, List.length_append,
        List.any_cons, Nat.add_assoc, Bool.or_assoc]

-- Where no piece begins, the scan stops, unless a comment is left open there.
theorem scan_of_leftOpen (h : LeftOpen rest) (newlines : Bool) (pos : Nat) (crossed : Bool) :
    scan newlines .open pos crossed rest = .unclosed pos := by
  obtain ⟨inside, rfl, hinside⟩ := h
  rw [scan, scan_unclosed hinside]

theorem scan_of_endsAt (h : EndsAt newlines rest) (hclosed : ¬ LeftOpen rest) (pos : Nat)
    (crossed : Bool) : scan newlines .open pos crossed rest = .stopped pos rest crossed := by
  cases rest with
  | nil => rfl
  | cons c rest =>
      obtain ⟨hline, hblock⟩ := h.opens_nothing hclosed
      refine scan_stops hline hblock h.not_isSpace ?_ pos crossed
      rintro rfl hc
      exact h.not_lineEnd ((isLineEnd_iff c).mp hc)

theorem exists_run_of_stopped
    (h : scan newlines .open pos crossed cs = .stopped last rest crossed') :
    ∃ pieces, IsFullRun newlines cs pieces rest ∧ ¬ LeftOpen rest ∧
      last = pos + pieces.flatten.length := by
  obtain ⟨pieces, rest', hrun⟩ := exists_isFullRun newlines cs
  rw [hrun.text, scan_run hrun.run] at h
  by_cases hopen : LeftOpen rest'
  · rw [scan_of_leftOpen hopen] at h
    cases h
  · rw [scan_of_endsAt hrun.ends hopen] at h
    cases h
    exact ⟨pieces, hrun, hopen, rfl⟩

theorem exists_run_of_unclosed (h : scan newlines .open pos crossed cs = .unclosed start) :
    ∃ pieces rest, IsFullRun newlines cs pieces rest ∧ LeftOpen rest ∧
      start = pos + pieces.flatten.length := by
  obtain ⟨pieces, rest, hrun⟩ := exists_isFullRun newlines cs
  rw [hrun.text, scan_run hrun.run] at h
  by_cases hopen : LeftOpen rest
  · rw [scan_of_leftOpen hopen] at h
    cases h
    exact ⟨pieces, rest, hrun, hopen, rfl⟩
  · rw [scan_of_endsAt hrun.ends hopen] at h
    cases h

end

end Trivia

section

variable {newlines crossed crossed' : Bool} {pos last : Nat} {cs rest : List Char}

-- What is left behind trivia was there before.
theorem scan_suffix (h : Trivia.scan newlines .open pos crossed cs = .stopped last rest crossed') :
    rest <:+ cs := by
  obtain ⟨pieces, hrun, -, -⟩ := Trivia.exists_run_of_stopped h
  exact ⟨pieces.flatten, hrun.text.symm⟩

-- The position moves with the text.
theorem scan_position
    (h : Trivia.scan newlines .open pos crossed cs = .stopped last rest crossed') :
    last + rest.length = pos + cs.length := by
  obtain ⟨pieces, hrun, -, rfl⟩ := Trivia.exists_run_of_stopped h
  rw [hrun.text, List.length_append, Nat.add_assoc]

end

end CardLore
