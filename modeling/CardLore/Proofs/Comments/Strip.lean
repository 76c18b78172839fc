import CardLore.Proofs.Grammar.Word

namespace CardLore

-- What the text is inside of.
inductive StripPlace where
  | open
  | string
  | lineComment
  | blockComment

-- A block comment is closed somewhere in the text.
def closesBlock : List Char → Bool
  | [] => false
  | '*' :: ')' :: _ => true
  | _ :: rest => closesBlock rest

-- A line comment goes up to the end of its line, and a block comment through the first mark that
-- closes it; what opens a block comment that is not closed is no comment. In a string, a character
-- behind a backslash does not close it.
def stripFrom : StripPlace → List Char → List Char
  | _, [] => []
  | .open, '/' :: '/' :: rest => ' ' :: stripFrom .lineComment rest
  | .open, '(' :: '*' :: rest =>
    if closesBlock rest then ' ' :: stripFrom .blockComment rest
    else '(' :: '*' :: stripFrom .open rest
  | .open, '"' :: rest => '"' :: stripFrom .string rest
  | .open, c :: rest => c :: stripFrom .open rest
  | .string, '\\' :: c :: rest => '\\' :: c :: stripFrom .string rest
  | .string, '"' :: rest => '"' :: stripFrom .open rest
  | .string, c :: rest => c :: stripFrom .string rest
  | .lineComment, c :: rest =>
    if Trivia.isLineEnd c then c :: stripFrom .open rest else stripFrom .lineComment rest
  | .blockComment, '*' :: ')' :: rest => stripFrom .open rest
  | .blockComment, _ :: rest => stripFrom .blockComment rest
termination_by structural _ cs => cs

def stripComments (source : List Char) : List Char :=
  stripFrom .open source

example : stripComments "a// b\n\"// c\" (* d\n(* *)e".toList = "a \n\"// c\"  e".toList := by
  decide

-- What becomes of the first character: it stays, or it is the first one of a string, of a line
-- comment or of a block comment.
inductive StripsHead (c : Char) (rest : List Char) : List Char → Prop
  | keep (hquote : c ≠ '"') (hline : ∀ inside, c = '/' → rest ≠ '/' :: inside)
      (hblock : ∀ inside, c = '(' → rest = '*' :: inside → closesBlock inside = false) :
      StripsHead c rest (c :: stripComments rest)
  | string (hc : c = '"') : StripsHead c rest ('"' :: stripFrom .string rest)
  | lineComment {inside : List Char} (hc : c = '/') (hrest : rest = '/' :: inside) :
      StripsHead c rest (' ' :: stripFrom .lineComment inside)
  | blockComment {inside : List Char} (hc : c = '(') (hrest : rest = '*' :: inside)
      (hcloses : closesBlock inside = true) :
      StripsHead c rest (' ' :: stripFrom .blockComment inside)

theorem exists_stripsHead (c : Char) (rest : List Char) :
    ∃ cs, stripComments (c :: rest) = cs ∧ StripsHead c rest cs := by
  refine ⟨_, rfl, ?_⟩
  rw [stripComments]
  generalize hcs : c :: rest = cs
  generalize hplace : StripPlace.open = place
  fun_cases stripFrom place cs with
  | case1 => cases hcs
  | case2 inside =>
      cases hcs
      exact .lineComment rfl rfl
  | case3 inside hcloses =>
      cases hcs
      exact .blockComment rfl rfl hcloses
  | case4 inside hopen =>
      cases hcs
      refine .keep (by decide) (fun _ h => absurd h (by decide)) ?_
      rintro _ - ⟨⟩
      exact Bool.eq_false_iff.mpr hopen
  | case5 inside =>
      cases hcs
      exact .string rfl
  | case6 c rest hline hblock hquote =>
      cases hcs
      refine .keep hquote (fun inside hc h => hline inside hc h) ?_
      exact fun inside hc h => (hblock inside hc h).elim
  | case7 | case8 | case9 | case10 | case11 | case12 | case13 => cases hplace

-- A character that is no blank and starts neither a comment nor a string.
def IsPlain (c : Char) : Prop :=
  c ∉ [' ', '"', '/', '(']

instance : DecidablePred IsPlain :=
  fun c => inferInstanceAs (Decidable (c ∉ [' ', '"', '/', '(']))

theorem stripComments_keep {c : Char} (hquote : c ≠ '"') (hslash : c ≠ '/') (hopen : c ≠ '(')
    (rest : List Char) : stripComments (c :: rest) = c :: stripComments rest := by
  obtain ⟨cs, hstrip, hhead⟩ := exists_stripsHead c rest
  cases hhead with
  | keep => exact hstrip
  | string h => exact absurd h hquote
  | lineComment h => exact absurd h hslash
  | blockComment h => exact absurd h hopen

theorem stripComments_plain {c : Char} (hc : IsPlain c) (rest : List Char) :
    stripComments (c :: rest) = c :: stripComments rest := by
  simp only [IsPlain, List.mem_cons, List.not_mem_nil, or_false, not_or] at hc
  exact stripComments_keep hc.2.1 hc.2.2.1 hc.2.2.2 rest

-- What stands first behind the comments stood first before, unless it is a blank.
theorem exists_head {cs tail : List Char} {d : Char} (h : stripComments cs = d :: tail)
    (hd : d ≠ ' ') : ∃ rest, cs = d :: rest := by
  cases cs with
  | nil => cases h
  | cons c rest =>
      obtain ⟨cs, hstrip, hhead⟩ := exists_stripsHead c rest
      obtain rfl := hstrip.symm.trans h
      cases hhead with
      | keep => exact ⟨rest, rfl⟩
      | string hc => exact ⟨rest, by rw [hc]⟩
      | lineComment | blockComment => exact absurd rfl hd

theorem exists_head_not_plain {c : Char} (hc : ¬ IsPlain c) (rest : List Char) :
    ∃ d tail, stripComments (c :: rest) = d :: tail ∧ ¬ IsPlain d := by
  obtain ⟨cs, hstrip, hhead⟩ := exists_stripsHead c rest
  cases hhead with
  | keep => exact ⟨_, _, hstrip, hc⟩
  | string | lineComment | blockComment => exact ⟨_, _, hstrip, by decide⟩

theorem stripComments_eq_nil_iff (cs : List Char) : stripComments cs = [] ↔ cs = [] := by
  constructor
  · intro h
    cases cs with
    | nil => rfl
    | cons c rest =>
        obtain ⟨cs, hstrip, hhead⟩ := exists_stripsHead c rest
        obtain rfl := hstrip.symm.trans h
        cases hhead
  · rintro rfl
    rfl

theorem stripComments_append {front : List Char} (h : ∀ c ∈ front, IsPlain c) (rest : List Char) :
    stripComments (front ++ rest) = front ++ stripComments rest := by
  induction front with
  | nil => rfl
  | cons c front ih =>
      obtain ⟨hc, hfront⟩ := List.forall_mem_cons.mp h
      rw [List.cons_append, stripComments_plain hc, ih hfront, List.cons_append]

-- The first characters are the same as soon as they are plain in one of the texts.
theorem take_plain_iff (n : Nat) (cs : List Char) :
    (∀ c ∈ (stripComments cs).take n, IsPlain c) ↔ ∀ c ∈ cs.take n, IsPlain c := by
  induction n generalizing cs with
  | zero => simp
  | succ n ih =>
      cases cs with
      | nil => rfl
      | cons c rest =>
          by_cases hc : IsPlain c
          · rw [stripComments_plain hc, List.take_succ_cons, List.take_succ_cons,
              List.forall_mem_cons, List.forall_mem_cons, ih]
          · obtain ⟨d, tail, hstrip, hd⟩ := exists_head_not_plain hc rest
            rw [hstrip, List.take_succ_cons, List.take_succ_cons, List.forall_mem_cons,
              List.forall_mem_cons]
            exact iff_of_false (fun h => hd h.1) fun h => hc h.1

theorem take_stripComments {n : Nat} {cs : List Char} (h : ∀ c ∈ cs.take n, IsPlain c) :
    (stripComments cs).take n = cs.take n ∧
      (stripComments cs).drop n = stripComments (cs.drop n) := by
  induction n generalizing cs with
  | zero => exact ⟨rfl, rfl⟩
  | succ n ih =>
      cases cs with
      | nil => exact ⟨rfl, rfl⟩
      | cons c rest =>
          obtain ⟨hc, hrest⟩ := List.forall_mem_cons.mp h
          obtain ⟨htake, hdrop⟩ := ih hrest
          rw [stripComments_plain hc, List.take_succ_cons, List.take_succ_cons, htake]
          exact ⟨rfl, hdrop⟩

-- A test that only plain characters pass fails for the first character in both texts or in none.
theorem exists_head_of_not {p : Char → Bool} (hp : ∀ c, p c = true → IsPlain c) {c : Char}
    (hc : ¬ p c = true) (rest : List Char) :
    ∃ d tail, stripComments (c :: rest) = d :: tail ∧ ¬ p d = true := by
  by_cases hplain : IsPlain c
  · exact ⟨c, _, stripComments_plain hplain rest, hc⟩
  · obtain ⟨d, tail, hstrip, hd⟩ := exists_head_not_plain hplain rest
    exact ⟨d, tail, hstrip, fun h => hd (hp d h)⟩

theorem takeWhile_stripComments {p : Char → Bool} (hp : ∀ c, p c = true → IsPlain c)
    (cs : List Char) :
    (stripComments cs).takeWhile p = cs.takeWhile p ∧
      (stripComments cs).dropWhile p = stripComments (cs.dropWhile p) := by
  induction cs with
  | nil => exact ⟨rfl, rfl⟩
  | cons c rest ih =>
      by_cases hc : p c = true
      · rw [stripComments_plain (hp c hc), List.takeWhile_cons_of_pos hc,
          List.takeWhile_cons_of_pos hc, List.dropWhile_cons_of_pos hc,
          List.dropWhile_cons_of_pos hc, ih.1]
        exact ⟨rfl, ih.2⟩
      · obtain ⟨d, tail, hstrip, hd⟩ := exists_head_of_not hp hc rest
        rw [List.takeWhile_cons_of_neg hc, List.dropWhile_cons_of_neg hc, hstrip,
          List.takeWhile_cons_of_neg hd, List.dropWhile_cons_of_neg hd]
        exact ⟨rfl, rfl⟩

theorem closesBlock_cons {c : Char} {rest : List Char} :
    closesBlock (c :: rest) = false ↔
      closesBlock rest = false ∧ (c = '*' → rest.head? ≠ some ')') := by
  generalize hcs : c :: rest = cs
  fun_cases closesBlock cs with
  | case1 => cases hcs
  | case2 =>
      cases hcs
      simp
  | case3 c rest hnot =>
      cases hcs
      refine ⟨fun h => ⟨h, ?_⟩, fun h => h.1⟩
      rintro rfl hhead
      obtain ⟨after, hafter⟩ := List.head?_eq_some_iff.mp hhead
      exact hnot after rfl hafter

theorem head_stripFrom_string (cs : List Char) : (stripFrom .string cs).head? = cs.head? := by
  generalize hplace : StripPlace.string = place
  fun_cases stripFrom place cs with
  | case1 | case7 | case8 | case9 => rfl
  | case2 | case3 | case4 | case5 | case6 | case10 | case11 | case12 | case13 => cases hplace

theorem head_stripComments {cs : List Char} {d : Char} (h : (stripComments cs).head? = some d)
    (hd : d ≠ ' ') : cs.head? = some d := by
  obtain ⟨tail, htail⟩ := List.head?_eq_some_iff.mp h
  obtain ⟨rest, rfl⟩ := exists_head htail hd
  rfl

-- No mark that closes a block comment comes about where there was none.
theorem closesBlock_stripFrom (place : StripPlace) (cs : List Char) (h : closesBlock cs = false) :
    closesBlock (stripFrom place cs) = false := by
  have hstay : ∀ cs : List Char, cs.head? ≠ some ')' → (stripComments cs).head? ≠ some ')' :=
    fun cs h hhead => h (head_stripComments hhead (by decide))
  fun_induction stripFrom place cs with
  | case1 => rfl
  | case2 rest ih =>
      rw [closesBlock_cons, closesBlock_cons] at h
      exact closesBlock_cons.mpr ⟨ih h.1.1, fun h => absurd h (by decide)⟩
  | case3 rest hcloses =>
      rw [closesBlock_cons, closesBlock_cons] at h
      exact absurd hcloses (Bool.eq_false_iff.mp h.1.1)
  | case4 rest _ ih =>
      rw [closesBlock_cons, closesBlock_cons] at h ⊢
      exact ⟨⟨ih h.1.1, fun hc => hstay rest (h.1.2 hc)⟩, fun h => absurd h (by decide)⟩
  | case5 rest ih =>
      rw [closesBlock_cons] at h ⊢
      exact ⟨ih h.1, fun h => absurd h (by decide)⟩
  | case6 c rest _ _ _ ih =>
      rw [closesBlock_cons] at h ⊢
      exact ⟨ih h.1, fun hc => hstay rest (h.2 hc)⟩
  | case7 c rest ih =>
      rw [closesBlock_cons, closesBlock_cons] at h ⊢
      refine ⟨⟨ih h.1.1, fun hc => ?_⟩, fun h => absurd h (by decide)⟩
      rw [head_stripFrom_string]
      exact h.1.2 hc
  | case8 rest ih =>
      rw [closesBlock_cons] at h ⊢
      exact ⟨ih h.1, fun h => absurd h (by decide)⟩
  | case9 c rest _ _ ih =>
      rw [closesBlock_cons] at h ⊢
      rw [head_stripFrom_string]
      exact ⟨ih h.1, h.2⟩
  | case10 c rest hend ih =>
      rw [closesBlock_cons] at h ⊢
      refine ⟨ih h.1, ?_⟩
      rintro rfl
      exact absurd hend (by decide)
  | case11 c rest _ ih => exact ih (closesBlock_cons.mp h).1
  | case12 => cases h
  | case13 c rest _ ih => exact ih (closesBlock_cons.mp h).1

theorem closesBlock_eq_false_iff {cs : List Char} :
    closesBlock cs = false ↔ ¬ ['*', ')'] <:+: cs := by
  induction cs with
  | nil => exact iff_of_true rfl (by decide)
  | cons c cs ih =>
      have hfront : ['*', ')'] <+: c :: cs ↔ c = '*' ∧ cs.head? = some ')' := by
        cases cs <;> simp [eq_comm]
      rw [closesBlock_cons, ih, List.infix_cons_iff, hfront, not_or, not_and, and_comm]

-- Two scans end alike: at the same token, having crossed a line end or not, or in an open comment.
inductive ScansAlike : Trivia.Scan → Trivia.Scan → Prop
  | stopped {pos pos' : Nat} {rest : List Char} (crossed : Bool)
      (htoken : ∀ inside, rest ≠ '(' :: '*' :: inside) :
      ScansAlike (.stopped pos rest crossed) (.stopped pos' (stripComments rest) crossed)
  | unclosed (start start' : Nat) : ScansAlike (.unclosed start) (.unclosed start')

theorem isPlain_of_isLineEnd {c : Char} (h : Trivia.isLineEnd c = true) : IsPlain c := by
  rcases (isLineEnd_iff c).mp h with rfl | rfl <;> decide

theorem ne_of_isTrivia {c : Char} (h : Trivia.isLineEnd c = true ∨ Trivia.isSpace c = true) :
    c ≠ '"' ∧ c ≠ '/' ∧ c ≠ '(' := by
  refine ⟨?_, ?_, ?_⟩ <;> rintro rfl <;> exact absurd h (by decide)

theorem stripFrom_lineComment {inside after : List Char}
    (h : ∀ d ∈ inside, d ≠ '\r' ∧ d ≠ '\n') (hafter : ∀ d ∈ after.head?, d = '\r' ∨ d = '\n') :
    stripFrom .lineComment (inside ++ after) = stripComments after := by
  induction inside with
  | nil =>
      cases after with
      | nil => rfl
      | cons c after =>
          have hc := (isLineEnd_iff c).mpr (hafter c rfl)
          rw [List.nil_append, stripFrom, if_pos hc, stripComments_plain (isPlain_of_isLineEnd hc)]
          rfl
  | cons d inside ih =>
      obtain ⟨hd, hinside⟩ := List.forall_mem_cons.mp h
      rw [List.cons_append, stripFrom, if_neg (by simp [Trivia.isLineEnd, hd]), ih hinside]

theorem stripFrom_blockComment {inside : List Char} (h : ¬ ['*', ')'] <:+: inside ++ ['*'])
    (after : List Char) :
    stripFrom .blockComment (inside ++ '*' :: ')' :: after) = stripComments after := by
  induction inside with
  | nil => rfl
  | cons d inside ih =>
      rw [List.cons_append, stripFrom, ih fun hin => h (hin.trans (List.suffix_cons _ _).isInfix)]
      exact fun tail => not_closed_here h

-- Of a comment a blank stays, and of any other piece of trivia the piece itself.
theorem stripComments_piece {newlines : Bool} {piece after : List Char}
    (h : Trivia.IsPiece newlines piece after) :
    ∃ shown, stripComments (piece ++ after) = shown ++ stripComments after ∧
      Trivia.IsPiece newlines shown (stripComments after) ∧
      Trivia.isLineEndPiece shown = Trivia.isLineEndPiece piece := by
  have hblank : Trivia.IsPiece newlines [' '] (stripComments after) := .blank (.inl rfl)
  cases h with
  | @blank c _ hc =>
      have hstrip : stripComments (c :: after) = c :: stripComments after := by
        rcases hc with rfl | rfl <;> rfl
      exact ⟨[c], hstrip, .blank hc, rfl⟩
  | @lineEnd c _ hmode hc =>
      have hplain := isPlain_of_isLineEnd ((isLineEnd_iff c).mpr hc)
      exact ⟨[c], stripComments_plain hplain after, .lineEnd hmode hc, rfl⟩
  | lineComment hinside hafter =>
      refine ⟨[' '], ?_, hblank, by simp [Trivia.isLineEndPiece]⟩
      rw [List.cons_append, List.cons_append, stripComments, stripFrom,
        stripFrom_lineComment hinside hafter]
      rfl
  | @blockComment inside _ hinside =>
      refine ⟨[' '], ?_, hblank, by simp [Trivia.isLineEndPiece]⟩
      have hcloses : closesBlock (inside ++ '*' :: ')' :: after) = true := by
        rw [← Bool.not_eq_false, closesBlock_eq_false_iff, not_not]
        exact ⟨inside, after, by simp⟩
      rw [List.cons_append, List.cons_append, List.append_assoc, stripComments, stripFrom]
      simp only [List.cons_append, List.nil_append]
      rw [if_pos hcloses, stripFrom_blockComment hinside]

theorem scan_stripComments_run {newlines : Bool} {pieces : List (List Char)} {rest : List Char}
    (h : Trivia.IsRun newlines pieces rest) (pos : Nat) (crossed : Bool) :
    ∃ pos', Trivia.scan newlines .open pos crossed (stripComments (pieces.flatten ++ rest)) =
      Trivia.scan newlines .open pos' (crossed || pieces.any Trivia.isLineEndPiece)
        (stripComments rest) := by
  induction h generalizing pos crossed with
  | nil => exact ⟨pos, by simp⟩
  | cons hpiece _ ih =>
      obtain ⟨shown, hstrip, hshown, hsame⟩ := stripComments_piece hpiece
      obtain ⟨pos', hscan⟩ := ih (pos + shown.length) (crossed || Trivia.isLineEndPiece shown)
      refine ⟨pos', ?_⟩
      rw [List.flatten_cons, List.append_assoc, hstrip, Trivia.scan_piece hshown, hscan, hsame,
        List.any_cons, Bool.or_assoc]

-- Where the scan stops, it stops in the stripped text as well.
theorem scan_stripComments {newlines : Bool} {rest : List Char} (hends : Trivia.EndsAt newlines rest)
    (hclosed : ¬ Trivia.LeftOpen rest) (pos : Nat) (crossed : Bool) :
    Trivia.scan newlines .open pos crossed (stripComments rest) =
      .stopped pos (stripComments rest) crossed := by
  cases rest with
  | nil => rfl
  | cons c rest =>
      obtain ⟨hline, hblock⟩ := hends.opens_nothing hclosed
      obtain ⟨ds, hstrip, hhead⟩ := exists_stripsHead c rest
      rw [hstrip]
      cases hhead with
      | keep =>
          refine scan_stops ?_ ?_ hends.not_isSpace ?_ pos crossed
          · intro inside hc hstripped
            obtain ⟨after, rfl⟩ := exists_head hstripped (by decide)
            exact hline after hc rfl
          · intro inside hc hstripped
            obtain ⟨after, rfl⟩ := exists_head hstripped (by decide)
            exact hblock after hc rfl
          · rintro rfl hc
            exact hends.not_lineEnd ((isLineEnd_iff c).mp hc)
      | string => exact scan_solid (by decide) _ newlines pos crossed
      | lineComment hc hrest => exact (hline _ hc hrest).elim
      | blockComment hc hrest => exact (hblock _ hc hrest).elim

theorem scansAlike (newlines : Bool) (pos pos' : Nat) (cs : List Char) :
    ScansAlike (Trivia.skip newlines pos cs) (Trivia.skip newlines pos' (stripComments cs)) := by
  obtain ⟨pieces, rest, rfl, hrun, hends⟩ := Trivia.exists_isFullRun newlines cs
  obtain ⟨last, hscan⟩ := scan_stripComments_run hrun pos' false
  rw [Trivia.skip, Trivia.skip, Trivia.scan_run hrun, hscan]
  by_cases hopen : Trivia.LeftOpen rest
  · obtain ⟨inside, rfl, hinside⟩ := hopen
    have hcloses := closesBlock_eq_false_iff.mpr hinside
    have hstripped := closesBlock_eq_false_iff.mp (closesBlock_stripFrom .open inside hcloses)
    rw [Trivia.scan_of_leftOpen ⟨inside, rfl, hinside⟩, stripComments, stripFrom,
      if_neg (Bool.eq_false_iff.mp hcloses), Trivia.scan_of_leftOpen ⟨_, rfl, hstripped⟩]
    exact .unclosed _ _
  · rw [Trivia.scan_of_endsAt hends hopen, scan_stripComments hends hopen]
    refine .stopped _ ?_
    rintro inside rfl
    exact hopen ⟨inside, rfl, hends.not_infix⟩

end CardLore
