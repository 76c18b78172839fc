import CardLore.Proofs.Conduct.Brackets
import CardLore.Proofs.Text.Letters

namespace CardLore

-- The letters of a word, each in upper or lower case.
def Spells (word : String) (cs : List Char) : Prop :=
  List.Forall₂ Lowers cs word.toList

-- Symbols, keywords, quoted strings, and keys or numbers. A sign before a number may be a token of
-- its own, and so is a percent sign.
inductive IsToken : List Char → Prop
  | symbol {text : String} (htext : text ∈ "%" :: symbols) : IsToken text.toList
  | keyword {word : String} {cs : List Char} (hword : word ∈ keywords) (h : Spells word cs) :
      IsToken cs
  | word {cs : List Char} (hne : cs ≠ []) (hcs : ∀ c ∈ cs, isKeyChar c = true ∨ c = '+') :
      IsToken cs
  | quoted {body : List Char} {t : Text} (hbody : StringBody body t) :
      IsToken ('"' :: (body ++ ['"']))

theorem isLineEnd_of_lowers {c d : Char} (h : Lowers c d) (hd : d.isLower = true) :
    Trivia.isLineEnd c = false := by
  rw [Bool.eq_false_iff]
  intro hline
  rcases h with ⟨-, rfl⟩ | ⟨rfl, -⟩
  · rcases (isLineEnd_iff c).mp hline with rfl | rfl <;> cases hd
  · cases hline

-- A token starts with a character that ends no line.
theorem IsToken.exists_cons {token : List Char} (h : IsToken token) :
    ∃ c cs, token = c :: cs ∧ Trivia.isLineEnd c = false := by
  cases h with
  | @symbol text htext =>
      have hall : (("%" :: symbols).all fun text =>
          text.toList.any fun _ => text.toList.all fun c => !Trivia.isLineEnd c) = true := by decide
      obtain ⟨c, hc, hline⟩ := List.any_eq_true.mp (List.all_eq_true.mp hall text htext)
      obtain ⟨c, cs, heq⟩ := List.exists_cons_of_ne_nil (List.ne_nil_of_mem hc)
      rw [heq, List.all_cons, Bool.and_eq_true_iff, Bool.not_eq_true'] at hline
      exact ⟨c, cs, heq, hline.1⟩
  | @keyword word _ hword h =>
      have hne : ∀ w ∈ keywords, w.toList ≠ [] := by decide
      obtain ⟨d, ds, hds⟩ := List.exists_cons_of_ne_nil (hne word hword)
      have hlower : d.isLower = true :=
        isLower_of_mem_keyword hword (by rw [hds]; exact List.mem_cons_self)
      rw [Spells, hds] at h
      cases h with
      | cons hcd _ => exact ⟨_, _, rfl, isLineEnd_of_lowers hcd hlower⟩
  | word hne hcs =>
      obtain ⟨c, cs, rfl⟩ := List.exists_cons_of_ne_nil hne
      refine ⟨c, cs, rfl, Bool.eq_false_iff.mpr fun hline => ?_⟩
      rcases (isLineEnd_iff c).mp hline with rfl | rfl
      all_goals exact absurd (hcs _ List.mem_cons_self) (by decide)
  | quoted => exact ⟨_, _, rfl, rfl⟩

-- From one text one comes to what is left behind the first token, or the first piece of trivia.
inductive Piece : List Char → List Char → Prop
  | trivia {cs rest : List Char} (h : TriviaPiece cs rest) : Piece cs rest
  | token {token rest : List Char} (h : IsToken token) : Piece (token ++ rest) rest

-- Over tokens and trivia one comes from one text to what is left of it.
def Moves (cs rest : List Char) : Prop :=
  Relation.ReflTransGen Piece cs rest

-- What was passed over last is a token.
def Closes (cs rest : List Char) : Prop :=
  ∃ token, IsToken token ∧ Moves cs (token ++ rest)

-- What was passed over is trivia.
def Skips (cs rest : List Char) : Prop :=
  Relation.ReflTransGen TriviaPiece cs rest

-- What was passed over, trivia apart, starts with a token that has `P`, and ends with a token.
def Opens (P : List Char → Prop) (cs rest : List Char) : Prop :=
  ∃ token mid, IsToken token ∧ P token ∧ Skips cs (token ++ mid) ∧ (mid = rest ∨ Closes mid rest)

section

variable {cs mid rest : List Char}

theorem Moves.refl : Moves cs cs :=
  Relation.ReflTransGen.refl

theorem Moves.trans (h : Moves cs mid) (h' : Moves mid rest) : Moves cs rest :=
  Relation.ReflTransGen.trans h h'

theorem Closes.moves (h : Closes cs rest) : Moves cs rest := by
  obtain ⟨token, htoken, hmoves⟩ := h
  exact hmoves.tail (.token htoken)

theorem Moves.closes (h : Moves cs mid) (h' : Closes mid rest) : Closes cs rest := by
  obtain ⟨token, htoken, hmoves⟩ := h'
  exact ⟨token, htoken, h.trans hmoves⟩

theorem Skips.moves (h : Skips cs rest) : Moves cs rest :=
  h.lift id fun _ _ => Piece.trivia

theorem Opens.closes {P : List Char → Prop} (h : Opens P cs rest) : Closes cs rest := by
  obtain ⟨token, mid, htoken, -, hskips, rfl | hcloses⟩ := h
  · exact ⟨token, htoken, hskips.moves⟩
  · have hmoves : Moves cs mid := hskips.moves.tail (.token htoken)
    exact hmoves.closes hcloses

theorem Opens.trans {P : List Char → Prop} (h : Opens P cs mid) (h' : Closes mid rest) :
    Opens P cs rest := by
  obtain ⟨token, after, htoken, hP, hskips, rfl | hcloses⟩ := h
  · exact ⟨token, after, htoken, hP, hskips, .inr h'⟩
  · exact ⟨token, after, htoken, hP, hskips, .inr (hcloses.moves.closes h')⟩

theorem Opens.mono {P Q : List Char → Prop} (h : Opens P cs rest)
    (himp : ∀ token, P token → Q token) : Opens Q cs rest := by
  obtain ⟨token, after, htoken, hP, hskips, hafter⟩ := h
  exact ⟨token, after, htoken, himp token hP, hskips, hafter⟩

theorem Skips.opens {P : List Char → Prop} (h : Skips cs mid) (h' : Opens P mid rest) :
    Opens P cs rest := by
  obtain ⟨token, after, htoken, hP, hskips, hafter⟩ := h'
  exact ⟨token, after, htoken, hP, Relation.ReflTransGen.trans h hskips, hafter⟩

theorem skips_of_scan {newlines : Bool} {pos last : Nat} {crossed crossed' : Bool}
    (h : Trivia.scan newlines .open pos crossed cs = .stopped last rest crossed') :
    Skips cs rest := by
  obtain ⟨pieces, hrun, -, -⟩ := Trivia.exists_run_of_stopped h
  rw [hrun.text]
  exact hrun.run.triviaPieces

theorem TriviaPiece.suffix (h : TriviaPiece cs rest) : rest <:+ cs :=
  (h.passes []).scans.suffix

theorem Moves.suffix (h : Moves cs rest) : rest <:+ cs := by
  induction h with
  | refl => exact List.suffix_rfl
  | tail _ hpiece ih =>
      refine List.IsSuffix.trans ?_ ih
      cases hpiece with
      | trivia h => exact h.suffix
      | token => exact List.suffix_append _ _

theorem Closes.length_lt (h : Closes cs rest) : rest.length < cs.length := by
  obtain ⟨token, htoken, hmoves⟩ := h
  obtain ⟨c, tail, rfl, -⟩ := htoken.exists_cons
  have hle := hmoves.suffix.length_le
  rw [List.cons_append, List.length_cons, List.length_append] at hle
  omega

end

-- A text that starts with the token `first` and ends with a token, with nothing but tokens and
-- trivia between.
inductive TokenRun : List Char → List Char → Prop
  | one {first : List Char} (hfirst : IsToken first) : TokenRun first first
  | cons {first gap second run : List Char} (hfirst : IsToken first) (hgap : IsTrivia gap)
      (hrun : TokenRun second run) : TokenRun first (first ++ (gap ++ run))

-- A text goes on with trivia, and then with a run of tokens up to `rest`.
def RunsTo (cs rest : List Char) : Prop :=
  ∃ gap first run, IsTrivia gap ∧ TokenRun first run ∧ cs = gap ++ (run ++ rest)

theorem TokenRun.exists_cons {first run : List Char} (h : TokenRun first run) :
    ∃ c cs, run = c :: cs ∧ Trivia.isLineEnd c = false := by
  cases h with
  | one hfirst => exact hfirst.exists_cons
  | cons hfirst _ _ =>
      obtain ⟨c, cs, rfl, hc⟩ := hfirst.exists_cons
      exact ⟨c, _, rfl, hc⟩

section

variable {cs mid rest : List Char}

-- Trivia before a run of tokens. What stands behind a line comment starts with the end of its line,
-- and no token does.
theorem TriviaPiece.runsTo (h : TriviaPiece cs mid) (hruns : RunsTo mid rest) : RunsTo cs rest := by
  obtain ⟨gap, first, run, hgap, hrun, hmid⟩ := hruns
  cases h with
  | @blank c _ hc =>
      exact ⟨c :: gap, first, run, .blank hc hgap, hrun, by rw [hmid, List.cons_append]⟩
  | blockComment hcs =>
      obtain ⟨inside, hinside, rfl⟩ := exists_inside_of_afterComment? hcs
      exact ⟨_, first, run, .blockComment hinside hgap, hrun, by simp [hmid]⟩
  | @lineComment cs =>
      obtain ⟨d, tail, rfl, hd⟩ := hrun.exists_cons
      have hinside : ∀ e ∈ cs.takeWhile (fun c => !Trivia.isLineEnd c), e ≠ '\r' ∧ e ≠ '\n' := by
        intro e he
        have hline := List.mem_takeWhile_imp he
        rw [Bool.not_eq_true', Bool.eq_false_iff, Ne, isLineEnd_iff] at hline
        exact not_or.mp hline
      have hhead : ∀ c after, cs.dropWhile (fun c => !Trivia.isLineEnd c) = c :: after →
          Trivia.isLineEnd c = true := by
        intro c after hdrop
        have hnot := List.head_dropWhile_not (fun c => !Trivia.isLineEnd c)
          (List.ne_nil_of_mem (hdrop ▸ List.mem_cons_self))
        simpa [hdrop] using hnot
      cases hgap with
      | nil => cases hd.symm.trans (hhead d _ hmid)
      | @blank c gap hc hgap =>
          have hc := (isLineEnd_iff c).mp (hhead c _ hmid)
          refine ⟨_, first, d :: tail, .lineComment hinside hc hgap, hrun, ?_⟩
          change '/' :: '/' :: cs = '/' :: '/' :: (_ ++ (c :: gap) ++ (d :: tail ++ rest))
          rw [List.append_assoc, ← hmid, List.takeWhile_append_dropWhile]
      | lineComment => cases hhead _ _ hmid
      | blockComment => cases hhead _ _ hmid

theorem Piece.runsTo (h : Piece cs mid) (hruns : RunsTo mid rest) : RunsTo cs rest := by
  cases h with
  | trivia h => exact h.runsTo hruns
  | @token token _ htoken =>
      obtain ⟨gap, first, run, hgap, hrun, rfl⟩ := hruns
      exact ⟨[], token, _, .nil, .cons htoken hgap hrun, by simp⟩

theorem Closes.runsTo (h : Closes cs rest) : RunsTo cs rest := by
  obtain ⟨token, htoken, hmoves⟩ := h
  induction hmoves using Relation.ReflTransGen.head_induction_on with
  | refl => exact ⟨[], token, token, .nil, .one htoken, rfl⟩
  | head hpiece _ ih => exact hpiece.runsTo ih

end

-- A blank, a line end or a comment stands next.
def StartsTrivia (cs : List Char) : Prop :=
  (∃ c ∈ [' ', '\t', '\r', '\n'], [c] <+: cs) ∨ ['/', '/'] <+: cs ∨ ['(', '*'] <+: cs

theorem TriviaPiece.startsTrivia {cs rest : List Char} (h : TriviaPiece cs rest) :
    StartsTrivia cs := by
  cases h with
  | @blank c _ hc => exact .inl ⟨c, hc, rest, rfl⟩
  | lineComment => exact .inr (.inl ⟨_, rfl⟩)
  | blockComment => exact .inr (.inr ⟨_, rfl⟩)

-- A text that starts with no trivia starts with the first token that is passed over.
theorem Opens.exists_run {P : List Char → Prop} {cs rest : List Char} (h : Opens P cs rest)
    (hstart : ¬ StartsTrivia cs) :
    ∃ first run, P first ∧ TokenRun first run ∧ cs = run ++ rest := by
  obtain ⟨token, mid, htoken, hP, hskips, hmid⟩ := h
  rcases Relation.ReflTransGen.cases_head hskips with rfl | ⟨after, hpiece, -⟩
  · rcases hmid with rfl | hcloses
    · exact ⟨token, token, hP, .one htoken, rfl⟩
    · obtain ⟨gap, second, run, hgap, hrun, rfl⟩ := hcloses.runsTo
      exact ⟨token, _, hP, .cons htoken hgap hrun, by simp⟩
  · exact absurd hpiece.startsTrivia hstart

-- Where line ends are blanks, no trivia is left behind what was skipped.
theorem not_startsTrivia_of_scan {pos last : Nat} {crossed crossed' : Bool} {cs rest : List Char}
    (h : Trivia.scan true .open pos crossed cs = .stopped last rest crossed') :
    ¬ StartsTrivia rest := by
  obtain ⟨pieces, hrun, hclosed, -⟩ := Trivia.exists_run_of_stopped h
  have hends := hrun.ends
  rintro (⟨c, hc, after, rfl⟩ | ⟨inside, rfl⟩ | ⟨inside, rfl⟩)
  · simp only [List.mem_cons, List.not_mem_nil, or_false] at hc
    rcases hc with rfl | rfl | hc
    · exact hends.not_isSpace rfl
    · exact hends.not_isSpace rfl
    · exact hends.not_lineEnd hc
  · exact hends.ne_lineComment rfl
  · exact hclosed ⟨inside, rfl, hends.not_infix⟩

-- What was skipped before a text that goes on is trivia, and all of it.
theorem exists_gap_of_skip {pos last : Nat} {crossed : Bool} {cs rest : List Char}
    (h : Trivia.skip true pos cs = .stopped last rest crossed) (hne : rest ≠ []) :
    ¬ StartsTrivia rest ∧ ∃ gap, IsTrivia gap ∧ cs = gap ++ rest ∧ last = pos + gap.length := by
  obtain ⟨gap, hgap, hcs⟩ := exists_trivia_of_scan h hne
  have hposition := scan_position h
  rw [hcs, List.length_append] at hposition
  exact ⟨not_startsTrivia_of_scan h, gap, hgap, hcs, by omega⟩

end CardLore
