import CardLore.Highlight.Token
import CardLore.Proofs.Text.LineEnds

namespace CardLore.Highlight

theorem length_next_pos (modes : List Mode) (before : Option Char) (c : Char) (rest : List Char) :
    0 < (next modes before c rest).2.1 := by
  rw [next]
  split
  next rule hfind =>
    have hpos := List.find?_some hfind
    exact of_decide_eq_true hpos
  next => split <;> exact Nat.one_pos

theorem length_drop_next (modes : List Mode) (before : Option Char) (c : Char) (rest : List Char) :
    ((c :: rest).drop (next modes before c rest).2.1).length ≤ rest.length := by
  have hpos := length_next_pos modes before c rest
  rw [List.length_drop, List.length_cons]
  omega

-- Any bound will do that is not below the length of the text.
theorem tokensUpTo_bound {m n : Nat} {modes : List Mode} {before : Option Char} {cs : List Char}
    (hm : cs.length ≤ m) (hn : cs.length ≤ n) :
    tokensUpTo m modes before cs = tokensUpTo n modes before cs := by
  induction m generalizing n modes before cs with
  | zero =>
      obtain rfl := List.length_eq_zero_iff.mp (Nat.le_zero.mp hm)
      cases n <;> rfl
  | succ m ih =>
      cases cs with
      | nil => cases n <;> rfl
      | cons c rest =>
          cases n with
          | zero => cases hn
          | succ n =>
              have hless := length_drop_next modes before c rest
              rw [tokensUpTo, tokensUpTo]
              exact congrArg _ (ih (Nat.le_trans hless (Nat.le_of_succ_le_succ hm))
                (Nat.le_trans hless (Nat.le_of_succ_le_succ hn)))

-- The tokens of a text that starts inside of some modes and behind some character.
def tokensFrom (modes : List Mode) (before : Option Char) (cs : List Char) : List Token :=
  tokensUpTo cs.length modes before cs

theorem tokensFrom_cons (modes : List Mode) (before : Option Char) (c : Char) (rest : List Char) :
    tokensFrom modes before (c :: rest) =
      ⟨(next modes before c rest).1, (c :: rest).take (next modes before c rest).2.1⟩ ::
        tokensFrom (next modes before c rest).2.2
          ((c :: rest).take (next modes before c rest).2.1).getLast?
          ((c :: rest).drop (next modes before c rest).2.1) :=
  congrArg _ (tokensUpTo_bound (length_drop_next modes before c rest) (Nat.le_refl _))

-- No character is lost, added or moved.
theorem content_tokensFrom (modes : List Mode) (before : Option Char) (cs : List Char) :
    (tokensFrom modes before cs).flatMap (·.content) = cs := by
  have hbound : ∀ bound modes before cs, cs.length ≤ bound →
      (tokensFrom modes before cs).flatMap (·.content) = cs := by
    intro bound
    induction bound with
    | zero =>
        intro modes before cs hle
        obtain rfl := List.length_eq_zero_iff.mp (Nat.le_zero.mp hle)
        rfl
    | succ bound ih =>
        intro modes before cs hle
        cases cs with
        | nil => rfl
        | cons c rest =>
            have hless := length_drop_next modes before c rest
            rw [tokensFrom_cons, List.flatMap_cons,
              ih _ _ _ (Nat.le_trans hless (Nat.le_of_succ_le_succ hle))]
            exact List.take_append_drop _ _
  exact hbound cs.length modes before cs (Nat.le_refl _)

theorem content_ne_nil {modes : List Mode} {before : Option Char} {cs : List Char} {token : Token}
    (h : token ∈ tokensFrom modes before cs) : token.content ≠ [] := by
  have hbound : ∀ bound modes before cs, token ∈ tokensUpTo bound modes before cs →
      token.content ≠ [] := by
    intro bound
    induction bound with
    | zero =>
        intro modes before cs hmem
        cases hmem
    | succ bound ih =>
        intro modes before cs hmem
        cases cs with
        | nil => cases hmem
        | cons c rest =>
            rcases List.mem_cons.mp hmem with rfl | hmem
            · have hpos := length_next_pos modes before c rest
              intro hnil
              rcases List.take_eq_nil_iff.mp hnil with hzero | hzero
              · exact absurd hzero (Nat.ne_of_gt hpos)
              · cases hzero
            · exact ih _ _ _ hmem
  exact hbound _ _ _ _ h

theorem dropWhile_lineFeed {cs : List Char} (h : '\n' ∉ cs) : cs.dropWhile (· == '\n') = cs := by
  cases cs with
  | nil => rfl
  | cons c cs =>
      have hc : (c == '\n') = false := beq_false_of_ne fun heq => h (heq ▸ List.mem_cons_self)
      rw [List.dropWhile_cons, hc, if_neg Bool.false_ne_true]

theorem stripLineFeeds_eq_self {cs : List Char} (h : '\n' ∉ cs) : stripLineFeeds cs = cs := by
  have hreverse : '\n' ∉ cs.reverse := fun hmem => h (List.mem_reverse.mp hmem)
  rw [stripLineFeeds, dropWhile_lineFeed h, dropWhile_lineFeed hreverse, List.reverse_reverse]

-- A line is cut as it is, with a line feed behind it.
theorem prepare_line {cs : List Char} (hfeed : '\n' ∉ cs) (hreturn : '\r' ∉ cs)
    (hmark : cs.head? ≠ some '\ufeff') : prepare cs = cs ++ ['\n'] := by
  have hdrop : dropMark cs = cs := by
    rw [dropMark.eq_def]
    split
    next => exact absurd rfl hmark
    next => rfl
  rw [prepare, hdrop, Text.unifyLineEnds_eq_self hreturn, stripLineFeeds_eq_self hfeed]

theorem content_tokens_line {cs : List Char} (hfeed : '\n' ∉ cs) (hreturn : '\r' ∉ cs)
    (hmark : cs.head? ≠ some '\ufeff') : (tokens cs).flatMap (·.content) = cs ++ ['\n'] := by
  rw [← prepare_line hfeed hreturn hmark]
  exact content_tokensFrom _ _ _

end CardLore.Highlight
