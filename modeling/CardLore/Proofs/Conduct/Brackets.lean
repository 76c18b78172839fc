import CardLore.Proofs.Grammar.Word
import Mathlib.Logic.Relation

namespace CardLore

-- Braces and square brackets, with what closes them. Round brackets do not nest.
def brackets : List (Char × Char) :=
  [('{', '}'), ('[', ']')]

-- Characters that stand for nothing but themselves, wherever they are outside of strings and
-- comments.
def IsInert (c : Char) : Prop :=
  c ∉ ['{', '}', '[', ']', '"', '/', '(']

instance (c : Char) : Decidable (IsInert c) :=
  inferInstanceAs (Decidable (c ∉ ['{', '}', '[', ']', '"', '/', '(']))

-- What is left behind the end of a block comment, from a place inside of it.
def afterComment? : List Char → Option (List Char)
  | '*' :: ')' :: rest => some rest
  | _ :: rest => afterComment? rest
  | [] => none

-- From one text, where the brackets in the first list have to be closed, one comes to what is left
-- behind its first piece.
inductive Passes : List Char × List Char → List Char × List Char → Prop
  | inert {pending cs : List Char} {c : Char} (hc : IsInert c) :
      Passes (pending, c :: cs) (pending, cs)
  | slash {pending cs : List Char} (hcs : cs.head? ≠ some '/') :
      Passes (pending, '/' :: cs) (pending, cs)
  | round {pending cs : List Char} (hcs : cs.head? ≠ some '*') :
      Passes (pending, '(' :: cs) (pending, cs)
  | string {pending cs : List Char} {t : Text} {length : Nat}
      (hcs : scanString cs = .closed t length) : Passes (pending, '"' :: cs) (pending, cs.drop length)
  | lineComment {pending cs : List Char} :
      Passes (pending, '/' :: '/' :: cs) (pending, cs.dropWhile fun c => !Trivia.isLineEnd c)
  | blockComment {pending cs rest : List Char} (hcs : afterComment? cs = some rest) :
      Passes (pending, '(' :: '*' :: cs) (pending, rest)
  | opening {pending cs : List Char} {c d : Char} (hpair : (c, d) ∈ brackets) :
      Passes (pending, c :: cs) (d :: pending, cs)
  | closing {pending cs : List Char} {d : Char} (hclose : d ∈ brackets.map (·.2)) :
      Passes (d :: pending, d :: cs) (pending, cs)

-- From the text `cs`, where the brackets in the first list have to be closed, one comes to `rest`,
-- where those in the second list have to.
def Scans (pending cs pending' rest : List Char) : Prop :=
  Relation.ReflTransGen Passes (pending, cs) (pending', rest)

-- At some place of the text, `n` brackets are open.
def BracketsNest (n : Nat) (text : List Char) : Prop :=
  ∃ pending rest, Scans [] text pending rest ∧ n ≤ pending.length

section

variable {first second third cs mid rest : List Char}

theorem Scans.refl : Scans first cs first cs :=
  Relation.ReflTransGen.refl

theorem Scans.trans (h : Scans first cs second mid) (h' : Scans second mid third rest) :
    Scans first cs third rest :=
  Relation.ReflTransGen.trans h h'

theorem Passes.scans (h : Passes (first, cs) (second, rest)) : Scans first cs second rest :=
  Relation.ReflTransGen.single h

-- The comment ends at the first place where it can.
theorem exists_inside_of_afterComment? (h : afterComment? cs = some rest) :
    ∃ inside, ¬ ['*', ')'] <:+: inside ++ ['*'] ∧ cs = inside ++ '*' :: ')' :: rest := by
  fun_induction afterComment? cs with
  | case1 tail =>
      cases h
      exact ⟨[], by decide, rfl⟩
  | case2 c tail hclose ih =>
      obtain ⟨inside, hinside, rfl⟩ := ih h
      refine ⟨c :: inside, not_infix_cons ?_ hinside, rfl⟩
      rintro more rfl rfl
      exact hclose _ rfl rfl
  | case3 => cases h

theorem afterComment?_suffix (h : afterComment? cs = some rest) : rest <:+ cs := by
  obtain ⟨inside, -, rfl⟩ := exists_inside_of_afterComment? h
  exact ⟨inside ++ ['*', ')'], by simp⟩

theorem Scans.suffix (h : Scans first cs second rest) : rest <:+ cs := by
  have hstep : ∀ {p q : List Char × List Char}, Passes p q → q.2 <:+ p.2 := by
    intro p q hpass
    cases hpass with
    | inert | slash | round | opening | closing => exact List.suffix_cons _ _
    | string => exact (List.drop_suffix _ _).trans (List.suffix_cons _ _)
    | @lineComment _ cs =>
        exact (List.dropWhile_suffix _).trans ⟨['/', '/'], rfl⟩
    | @blockComment _ cs _ hcs => exact (afterComment?_suffix hcs).trans ⟨['(', '*'], rfl⟩
  have hsuffix : ∀ {p q : List Char × List Char}, Relation.ReflTransGen Passes p q →
      q.2 <:+ p.2 := by
    intro p q hscans
    induction hscans with
    | refl => exact List.suffix_rfl
    | tail _ hpass ih => exact (hstep hpass).trans ih
  exact hsuffix h

-- Inert characters are passed over one by one.
theorem scans_inert {front : List Char} (h : ∀ c ∈ front, IsInert c) (pending rest : List Char) :
    Scans pending (front ++ rest) pending rest := by
  induction front with
  | nil => exact .refl
  | cons c front ih =>
      obtain ⟨hc, hfront⟩ := List.forall_mem_cons.mp h
      exact (Passes.inert hc).scans.trans (ih hfront)

-- There is one way on from every place.
theorem Passes.unique {p q r : List Char × List Char} (h : Passes p q) (h' : Passes p r) :
    q = r := by
  have hpair_iff : ∀ c d, (c, d) ∈ brackets ↔ (c = '{' ∧ d = '}') ∨ (c = '[' ∧ d = ']') := by
    simp [brackets]
  have hclose_iff : ∀ d, d ∈ brackets.map (·.2) ↔ d = '}' ∨ d = ']' := by simp [brackets]
  cases h <;> cases h' <;> simp only [hpair_iff, hclose_iff] at *
  -- the characters at the front tell which piece it is
  case opening.opening hpair hpair' =>
    rcases hpair with ⟨rfl, rfl⟩ | ⟨rfl, rfl⟩ <;> simpa [eq_comm] using hpair'
  case opening.closing hpair hclose =>
    rcases hclose with rfl | rfl <;> simp at hpair
  case closing.opening hclose hpair =>
    rcases hclose with rfl | rfl <;> simp at hpair
  all_goals first
    | rfl
    | simp_all [IsInert]

end

-- From one text one comes to what is left behind the first piece of trivia in it. The line end
-- behind a line comment is a piece of its own.
inductive TriviaPiece : List Char → List Char → Prop
  | blank {c : Char} {cs : List Char} (hc : c ∈ [' ', '\t', '\r', '\n']) : TriviaPiece (c :: cs) cs
  | lineComment {cs : List Char} :
      TriviaPiece ('/' :: '/' :: cs) (cs.dropWhile fun c => !Trivia.isLineEnd c)
  | blockComment {cs rest : List Char} (hcs : afterComment? cs = some rest) :
      TriviaPiece ('(' :: '*' :: cs) rest

theorem isInert_of_blank {c : Char} (h : c ∈ [' ', '\t', '\r', '\n']) : IsInert c := by
  simp only [List.mem_cons, List.not_mem_nil, or_false] at h
  rcases h with rfl | rfl | rfl | rfl <;> decide

theorem TriviaPiece.passes {cs rest : List Char} (h : TriviaPiece cs rest) (pending : List Char) :
    Passes (pending, cs) (pending, rest) := by
  cases h with
  | blank hc => exact .inert (isInert_of_blank hc)
  | lineComment => exact .lineComment
  | blockComment hcs => exact .blockComment hcs

theorem afterComment?_append {inside : List Char} (h : ¬ ['*', ')'] <:+: inside ++ ['*'])
    (rest : List Char) : afterComment? (inside ++ '*' :: ')' :: rest) = some rest := by
  induction inside with
  | nil => rfl
  | cons d inside ih =>
      rw [List.cons_append, afterComment?]
      · exact ih fun hin => h (hin.trans (List.suffix_cons _ _).isInfix)
      · exact fun tail => not_closed_here h

theorem Trivia.IsPiece.triviaPiece {newlines : Bool} {piece after : List Char}
    (h : IsPiece newlines piece after) : TriviaPiece (piece ++ after) after := by
  cases h with
  | blank hc => exact .blank (by rcases hc with rfl | rfl <;> decide)
  | lineEnd _ hc => exact .blank (by rcases hc with rfl | rfl <;> decide)
  | blockComment hinside =>
      have hcs := afterComment?_append hinside after
      simpa using TriviaPiece.blockComment hcs
  | @lineComment inside _ hinside hafter =>
      have hdrop : (inside ++ after).dropWhile (fun c => !Trivia.isLineEnd c) = after := by
        rw [List.dropWhile_append_of_pos (fun d hd => by simp [Trivia.isLineEnd, hinside d hd])]
        cases after with
        | nil => rfl
        | cons c after =>
            exact List.dropWhile_cons_of_neg (by simp [(isLineEnd_iff c).mpr (hafter c rfl)])
      have hpiece : TriviaPiece ('/' :: '/' :: (inside ++ after)) _ := .lineComment
      rwa [hdrop] at hpiece

-- A run goes from one piece of trivia to the next.
theorem Trivia.IsRun.triviaPieces {newlines : Bool} {pieces : List (List Char)} {rest : List Char}
    (h : IsRun newlines pieces rest) :
    Relation.ReflTransGen TriviaPiece (pieces.flatten ++ rest) rest := by
  induction h with
  | nil => exact .refl
  | cons hpiece _ ih =>
      rw [List.flatten_cons, List.append_assoc]
      exact ih.head hpiece.triviaPiece

-- Trivia is passed over with nothing opened and nothing closed.
theorem Trivia.IsRun.scans {newlines : Bool} {pieces : List (List Char)} {rest : List Char}
    (h : IsRun newlines pieces rest) (pending : List Char) :
    Scans pending (pieces.flatten ++ rest) pending rest :=
  h.triviaPieces.lift (fun cs => (pending, cs)) fun _ _ hpiece => hpiece.passes pending

theorem scans_of_scan {newlines : Bool} {pos last : Nat} {crossed crossed' : Bool}
    {cs rest : List Char}
    (h : Trivia.scan newlines .open pos crossed cs = .stopped last rest crossed')
    (pending : List Char) : Scans pending cs pending rest := by
  obtain ⟨pieces, hrun, -, -⟩ := Trivia.exists_run_of_stopped h
  rw [hrun.text]
  exact hrun.run.scans pending

end CardLore
