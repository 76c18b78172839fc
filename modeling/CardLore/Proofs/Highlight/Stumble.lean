import CardLore.Proofs.Highlight.Outline

namespace CardLore.Highlight

-- Some token of the text is an error.
def Stumbles (modes : List Mode) (before : Option Char) (cs : List Char) : Prop :=
  ∃ token ∈ tokensFrom modes before cs, token.kind = .error

section

variable {modes modes' : List Mode} {before before' : Option Char} {c : Char} {cs rest : List Char}
  {kind : TokenKind} {n : Nat}

theorem not_stumbles_nil : ¬ Stumbles modes before [] := by
  rintro ⟨token, hmem, -⟩
  cases hmem

theorem stumbles_cons : Stumbles modes before (c :: rest) ↔
    (next modes before c rest).1 = .error ∨
      Stumbles (next modes before c rest).2.2
        ((c :: rest).take (next modes before c rest).2.1).getLast?
        ((c :: rest).drop (next modes before c rest).2.1) := by
  rw [Stumbles, tokensFrom_cons]
  simp only [List.mem_cons, or_and_right, exists_or, exists_eq_left]
  rfl

theorem stumbles_step (hnext : next modes before c rest = (kind, n, modes'))
    (hkind : kind ≠ .error) : Stumbles modes before (c :: rest) ↔
      Stumbles modes' ((c :: rest).take n).getLast? ((c :: rest).drop n) := by
  rw [stumbles_cons, hnext, or_iff_right hkind]

theorem take_runLength (p : Char → Bool) (cs : List Char) :
    cs.take (runLength p cs) = cs.takeWhile p :=
  (List.prefix_iff_eq_take.mp (List.takeWhile_prefix p)).symm

theorem drop_runLength (p : Char → Bool) (cs : List Char) :
    cs.drop (runLength p cs) = cs.dropWhile p := by
  conv_lhs => rw [← List.takeWhile_append_dropWhile (p := p) (l := cs)]
  exact List.drop_left' (congrArg _ (by rw [List.takeWhile_append_dropWhile]))

-- The characters of a run are passed one by one.
theorem stumbles_run {p : Char → Bool}
    (hnext : ∀ before c rest, p c = true →
      next modes before c rest = (kind, runLength p (c :: rest), modes)) (hkind : kind ≠ .error)
    (hc : p c = true) : Stumbles modes before (c :: rest) ↔ Stumbles modes (some c) rest := by
  rw [stumbles_step (hnext _ _ _ hc) hkind, take_runLength, drop_runLength,
    List.takeWhile_cons_of_pos hc, List.dropWhile_cons_of_pos hc]
  cases rest with
  | nil => exact Iff.rfl
  | cons d rest =>
      by_cases hd : p d = true
      · rw [stumbles_step (hnext _ _ _ hd) hkind, take_runLength, drop_runLength,
          List.takeWhile_cons_of_pos hd, List.getLast?_cons_cons]
      · rw [List.takeWhile_cons_of_neg hd, List.dropWhile_cons_of_neg hd]
        rfl

end

theorem runLength_pos {p : Char → Bool} {c : Char} (hc : p c = true) (rest : List Char) :
    0 < runLength p (c :: rest) := by
  rw [runLength, List.takeWhile_cons_of_pos hc, List.length_cons]
  exact Nat.succ_pos _

theorem exactly_eq_zero {texts : List String} {cs : List Char}
    (h : ∀ text ∈ texts, text.toList.isPrefixOf cs = false) (before : Option Char) :
    exactly texts before cs = 0 := by
  have hnone : texts.find? (·.toList.isPrefixOf cs) = none :=
    List.find?_eq_none.mpr fun text htext => by simp [h text htext]
  rw [exactly, hnone]

-- A rule is used if it matches and those before it do not.
theorem next_of_rule {modes : List Mode} {before : Option Char} {c : Char} {rest : List Char}
    (earlier : List Rule) {later : List Rule} (rule : Rule)
    (hrules : (modes.headD .root).rules = earlier ++ rule :: later)
    (hearlier : ∀ rule ∈ earlier, rule.length before (c :: rest) = 0)
    (hpos : 0 < rule.length before (c :: rest)) :
    next modes before c rest =
      (rule.kind, rule.length before (c :: rest), rule.turn.apply modes) := by
  have hnone : earlier.find? (fun rule => 0 < rule.length before (c :: rest)) = none := by
    refine List.find?_eq_none.mpr fun rule hrule => ?_
    simp [hearlier rule hrule]
  rw [next, hrules, List.find?_append, hnone, Option.none_or,
    List.find?_cons_of_pos (by simpa using hpos)]

-- What comes next is a matter of the lengths that the rules match.
theorem next_congr {modes : List Mode} {before before' : Option Char} {c : Char}
    {rest rest' : List Char} (h : ∀ rule ∈ (modes.headD .root).rules,
      rule.length before (c :: rest) = rule.length before' (c :: rest')) :
    next modes before c rest = next modes before' c rest' := by
  have hfind : (modes.headD .root).rules.find? (fun rule => 0 < rule.length before (c :: rest)) =
      (modes.headD .root).rules.find? (fun rule => 0 < rule.length before' (c :: rest')) :=
    List.find?_congr fun rule hrule => by rw [h rule hrule]
  rw [next, next, hfind]
  split
  next rule hrule => rw [h rule (List.mem_of_find?_eq_some hrule)]
  next => rfl

theorem toNat_lt_of_isLower_toLower {c : Char} (h : c.toLower.isLower = true) : c.toNat < 128 := by
  rw [Char.toLower] at h
  split at h
  next hupper =>
    exact Nat.lt_of_le_of_lt (UInt32.le_iff_toNat_le.mp hupper.2) (by decide)
  next => exact toNat_lt_of_isLower h

theorem isWord_of_isCaseOf {letter c : Char} (hletter : letter.isLower = true)
    (h : isCaseOf letter c = true) : Text.isWord c = true := by
  simp only [isCaseOf, Bool.or_eq_true, Bool.and_eq_true, beq_iff_eq] at h
  rcases h with ((rfl | ⟨-, rfl⟩) | ⟨-, rfl⟩) | ⟨-, rfl | rfl⟩
  · exact forall_plain (P := fun c => c.toLower.isLower = true → Text.isWord c = true)
      (by decide) (toNat_lt_of_isLower_toLower hletter) hletter
  all_goals decide +kernel

theorem matchesWord_of_isWord {word : String} {c : Char}
    (hword : word.toList.head?.any Char.isLower = true) (hc : Text.isWord c = false)
    (rest : List Char) : matchesWord word.toList (c :: rest) = false := by
  cases hletters : word.toList with
  | nil =>
      rw [hletters] at hword
      cases hword
  | cons letter letters =>
      rw [hletters] at hword
      rw [matchesWord, Bool.and_eq_false_iff]
      refine .inl (Bool.eq_false_iff.mpr fun hcase => ?_)
      rw [isWord_of_isCaseOf hword hcase] at hc
      cases hc

theorem anyWord_of_isWord {words : List String} {c : Char}
    (hwords : (words.all fun word => word.toList.head?.any Char.isLower) = true)
    (hc : Text.isWord c = false) (before : Option Char) (rest : List Char) :
    anyWord words before (c :: rest) = 0 := by
  rw [anyWord]
  split_ifs
  · rfl
  · have hnone : words.find? (fun word => matchesWord word.toList (c :: rest) &&
        0 < endingWord word.length (c :: rest)) = none := by
      refine List.find?_eq_none.mpr fun word hmem => ?_
      rw [matchesWord_of_isWord (List.all_eq_true.mp hwords word hmem) hc]
      exact Bool.false_ne_true
    simp only [hnone]

-- The character before matters to the rules for keywords only, and only in that it ends a word.
theorem length_before {mode : Mode} {rule : Rule} (hrule : rule ∈ mode.rules) {c : Char}
    {before before' : Option Char} (h : mode = .root →
      Text.isWord c = false ∨ before.any Text.isWord = before'.any Text.isWord) (rest : List Char) :
    rule.length before (c :: rest) = rule.length before' (c :: rest) := by
  cases mode with
  | root =>
      have hkeyword {words : List String}
          (hwords : (words.all fun word => word.toList.head?.any Char.isLower) = true) :
          anyWord words before (c :: rest) = anyWord words before' (c :: rest) := by
        rcases h rfl with hc | hsame
        · rw [anyWord_of_isWord hwords hc, anyWord_of_isWord hwords hc]
        · rw [anyWord, anyWord, hsame]
      simp only [Mode.rules, rootRules, List.mem_cons, List.not_mem_nil, or_false] at hrule
      rcases hrule with rfl | rfl | rfl | rfl | rfl | rfl | rfl | rfl | rfl | rfl | rfl | rfl |
        rfl | rfl | rfl | rfl
      all_goals first
        | rfl
        | exact hkeyword (by decide)
  | string =>
      simp only [Mode.rules, stringRules, List.mem_cons, List.not_mem_nil, or_false] at hrule
      rcases hrule with rfl | rfl | rfl <;> rfl
  | comment =>
      simp only [Mode.rules, commentRules, List.mem_cons, List.not_mem_nil, or_false] at hrule
      rcases hrule with rfl | rfl | rfl <;> rfl
  | decorator =>
      simp only [Mode.rules, decoratorRules, List.mem_cons, List.not_mem_nil, or_false] at hrule
      rcases hrule with rfl | rfl | rfl | rfl | rfl <;> rfl

theorem stumbles_before (mode : Mode) {modes : List Mode} {cs : List Char}
    {before before' : Option Char} (h : mode = .root →
      startsWithWord cs = false ∨ before.any Text.isWord = before'.any Text.isWord) :
    Stumbles (mode :: modes) before cs ↔ Stumbles (mode :: modes) before' cs := by
  cases cs with
  | nil => exact iff_of_false not_stumbles_nil not_stumbles_nil
  | cons c rest =>
      have hnext : next (mode :: modes) before c rest = next (mode :: modes) before' c rest :=
        next_congr fun _ hrule => length_before hrule h rest
      rw [stumbles_cons, stumbles_cons, hnext]

theorem escapeLength_of_ne {c : Char} (hc : c ≠ '\\') (before : Option Char) (rest : List Char) :
    escapeLength before (c :: rest) = 0 := by
  rw [escapeLength.eq_def]
  split
  next heq => exact absurd (List.cons.inj heq).1 hc
  next heq => exact absurd (List.cons.inj heq).1 hc
  next => rfl

theorem escapeLength_short {c meaning : Char} (h : (c, meaning) ∈ shortEscapes)
    (before : Option Char) (rest : List Char) : escapeLength before ('\\' :: c :: rest) = 2 := by
  have hsome : shortEscape? c = some meaning := (shortEscape?_eq_some_iff c meaning).mpr h
  have hc : c ≠ 'u' := by
    rintro rfl
    cases hsome
  rw [escapeLength, if_pos (Option.isSome_of_eq_some hsome)]
  rintro _ _ _ _ _ rfl
  exact absurd rfl hc

theorem escapeLength_numbered {a b c d : Char} {w x y z : Nat} (ha : (a, w) ∈ hexDigits)
    (hb : (b, x) ∈ hexDigits) (hc : (c, y) ∈ hexDigits) (hd : (d, z) ∈ hexDigits)
    (before : Option Char) (rest : List Char) :
    escapeLength before ('\\' :: 'u' :: a :: b :: c :: d :: rest) = 6 := by
  have hsome := (numberedPoint?_eq_some_iff a b c d _).mpr ⟨w, x, y, z, ha, hb, hc, hd, rfl⟩
  rw [escapeLength, if_pos (Option.isSome_of_eq_some hsome)]

section

variable (mode : Mode) (modes : List Mode) (before : Option Char)

theorem next_string_escape {rest : List Char} {n : Nat}
    (h : escapeLength before ('\\' :: rest) = n + 1) :
    next (.string :: modes) before '\\' rest = (.escape, n + 1, .string :: modes) := by
  rw [next_of_rule _ ⟨.escape, escapeLength, .stay⟩ rfl (List.forall_mem_nil _)
    (Nat.lt_of_lt_of_eq n.succ_pos h.symm)]
  exact congrArg (TokenKind.escape, ·, _) h

def isRaw (c : Char) : Bool :=
  c != '"' && c != '\\'

theorem next_string_raw (c : Char) (rest : List Char) (hc : isRaw c = true) :
    next (.string :: modes) before c rest =
      (.string, runLength isRaw (c :: rest), .string :: modes) := by
  have hslash : c ≠ '\\' := by
    rintro rfl
    cases hc
  have hearlier : ∀ rule ∈ [Rule.mk .escape escapeLength .stay],
      rule.length before (c :: rest) = 0 :=
    List.forall_mem_singleton.mpr (escapeLength_of_ne hslash before rest)
  exact next_of_rule _ ⟨.string, run isRaw, .stay⟩ rfl hearlier (runLength_pos hc rest)

end

theorem stumbles_string {modes : List Mode} {mode : Mode} {body : List Char} {t : Text}
    (h : StringBody body t) (before : Option Char) (rest : List Char) :
    Stumbles (.string :: mode :: modes) before (body ++ '"' :: rest) ↔
      Stumbles (mode :: modes) (some '"') rest := by
  induction h generalizing before with
  | nil =>
      have hnext : next (.string :: mode :: modes) before '"' rest = (.string, 1, mode :: modes) :=
        rfl
      exact stumbles_step hnext nofun
  | @raw c cs _ hquote hslash _ ih =>
      have hraw : isRaw c = true := by simp [isRaw, hquote, hslash]
      exact (stumbles_run (next_string_raw _) nofun hraw).trans (ih _)
  | short hc _ ih =>
      exact (stumbles_step (next_string_escape _ _ (escapeLength_short hc _ _)) nofun).trans (ih _)
  | numbered ha hb hc hd _ ih =>
      have hlength := escapeLength_numbered ha hb hc hd
      exact (stumbles_step (next_string_escape _ _ (hlength _ _)) nofun).trans (ih _)

theorem stumbles_comment {modes : List Mode} {mode : Mode} {cs rest : List Char}
    (h : afterComment? cs = some rest) (before : Option Char) :
    Stumbles (.comment :: mode :: modes) before cs ↔ Stumbles (mode :: modes) (some ')') rest := by
  induction cs generalizing before with
  | nil => cases h
  | cons c cs ih =>
      rw [afterComment?_cons] at h
      split_ifs at h with hclose
      · obtain ⟨rfl, hhead⟩ := hclose
        obtain ⟨tail, rfl⟩ := List.head?_eq_some_iff.mp hhead
        cases h
        have hnext : next (.comment :: mode :: modes) before '*' (')' :: tail) =
            (.blockComment, 2, mode :: modes) := rfl
        exact stumbles_step hnext nofun
      by_cases hc : c = '*'
      · subst hc
        have hnext : next (.comment :: mode :: modes) before '*' cs =
            (.blockComment, 1, .comment :: mode :: modes) := by
          cases cs with
          | nil => rfl
          | cons d cs =>
              have hd : (')' == d) = false :=
                beq_false_of_ne fun heq => hclose ⟨rfl, congrArg some heq.symm⟩
              have hearlier : ∀ rule ∈ [Rule.mk .blockComment (run (· != '*')) .stay,
                  ⟨.blockComment, exactly ["*)"], .leave⟩],
                  rule.length before ('*' :: d :: cs) = 0 := by
                refine List.forall_mem_cons.mpr ⟨rfl, List.forall_mem_singleton.mpr ?_⟩
                exact exactly_eq_zero (by simp [List.isPrefixOf, hd]) before
              exact next_of_rule _ ⟨.blockComment, exactly ["*"], .stay⟩ rfl hearlier Nat.one_pos
        exact (stumbles_step hnext nofun).trans (ih h _)
      · have hnext (before : Option Char) (c : Char) (rest : List Char) (hc : (c != '*') = true) :
            next (.comment :: mode :: modes) before c rest =
              (.blockComment, runLength (· != '*') (c :: rest), .comment :: mode :: modes) :=
          next_of_rule _ ⟨.blockComment, run (· != '*'), .stay⟩ rfl (List.forall_mem_nil _)
            (runLength_pos (p := (· != '*')) hc rest)
        exact (stumbles_run hnext nofun (bne_iff_ne.mpr hc)).trans (ih h _)

theorem exactly_mark {c d : Char} {text : String} (htext : text.toList = [d]) (hc : c ≠ d)
    (before : Option Char) (rest : List Char) : exactly [text] before (c :: rest) = 0 := by
  refine exactly_eq_zero (List.forall_mem_singleton.mpr ?_) before
  rw [htext, List.isPrefixOf, beq_false_of_ne hc.symm, Bool.false_and]

section

variable (modes : List Mode) (before : Option Char) (c : Char) (rest : List Char)

theorem length_decorator_marks (hclose : c ≠ ']') (hquote : c ≠ '"') (hequals : c ≠ '=') :
    ∀ rule ∈ decoratorRules.take 3, rule.length before (c :: rest) = 0 := by
  refine List.forall_mem_cons.mpr ⟨exactly_mark rfl hclose before rest, ?_⟩
  refine List.forall_mem_cons.mpr ⟨exactly_mark rfl hquote before rest, ?_⟩
  exact List.forall_mem_singleton.mpr (exactly_mark rfl hequals before rest)

theorem next_decorator_blank (hc : Text.isBlank c = true) :
    next (.decorator :: modes) before c rest =
      (.text, runLength Text.isBlank (c :: rest), .decorator :: modes) := by
  refine next_of_rule (decoratorRules.take 3) ⟨.text, run Text.isBlank, .stay⟩ rfl
    (length_decorator_marks before c rest ?_ ?_ ?_) (runLength_pos hc rest)
  all_goals
    rintro rfl
    exact absurd hc (by decide)

-- What a decorator is made of, blanks and marks apart.
def isInner (c : Char) : Bool :=
  c != ']' && c != '"' && c != '=' && !Text.isBlank c

theorem next_decorator_inner (hc : isInner c = true) :
    next (.decorator :: modes) before c rest =
      (.decorator, runLength isInner (c :: rest), .decorator :: modes) := by
  have hpos := runLength_pos hc rest
  simp only [isInner, Bool.and_eq_true, bne_iff_ne, Bool.not_eq_true'] at hc
  obtain ⟨⟨⟨hclose, hquote⟩, hequals⟩, hblank⟩ := hc
  have hrun : run Text.isBlank before (c :: rest) = 0 := by
    rw [run, runLength, List.takeWhile_cons_of_neg (by simp [hblank]), List.length_nil]
  refine next_of_rule (decoratorRules.take 3 ++ [⟨.text, run Text.isBlank, .stay⟩])
    ⟨.decorator, run isInner, .stay⟩ rfl ?_ hpos
  exact List.forall_mem_append.mpr ⟨length_decorator_marks before c rest hclose hquote hequals,
    List.forall_mem_singleton.mpr hrun⟩

end

theorem stumbles_decorator_cons {modes : List Mode} {c : Char} (hclose : c ≠ ']') (hquote : c ≠ '"')
    (before : Option Char) (rest : List Char) :
    Stumbles (.decorator :: modes) before (c :: rest) ↔
      Stumbles (.decorator :: modes) (some c) rest := by
  by_cases hequals : c = '='
  · subst hequals
    have hnext : next (.decorator :: modes) before '=' rest =
        (.operator, 1, .decorator :: modes) := rfl
    exact stumbles_step hnext nofun
  cases hblank : Text.isBlank c with
  | true => exact stumbles_run (next_decorator_blank modes) nofun hblank
  | false =>
      have hinner : isInner c = true := by simp [isInner, hclose, hquote, hequals, hblank]
      exact stumbles_run (next_decorator_inner modes) nofun hinner

theorem stumbles_decorator_append {modes : List Mode} {front : List Char}
    (hfront : ∀ c ∈ front, c ≠ ']' ∧ c ≠ '"') (before before' : Option Char) (rest : List Char) :
    Stumbles (.decorator :: modes) before (front ++ rest) ↔
      Stumbles (.decorator :: modes) before' rest := by
  induction front generalizing before with
  | nil => exact stumbles_before .decorator nofun
  | cons c front ih =>
      obtain ⟨⟨hclose, hquote⟩, hfront⟩ := List.forall_mem_cons.mp hfront
      exact (stumbles_decorator_cons hclose hquote before _).trans (ih hfront _)

theorem stumbles_decorator_close {mode : Mode} {modes : List Mode} (before : Option Char)
    (rest : List Char) :
    Stumbles (.decorator :: mode :: modes) before (']' :: rest) ↔
      Stumbles (mode :: modes) (some ']') rest := by
  have hnext : next (.decorator :: mode :: modes) before ']' rest =
      (.decorator, 1, mode :: modes) := rfl
  exact stumbles_step hnext nofun

theorem stumbles_decorator_quoted {modes : List Mode} {body : List Char} {t : Text}
    (h : StringBody body t) (before before' : Option Char) (rest : List Char) :
    Stumbles (.decorator :: modes) before ('"' :: (body ++ '"' :: rest)) ↔
      Stumbles (.decorator :: modes) before' rest := by
  have hnext : next (.decorator :: modes) before '"' (body ++ '"' :: rest) =
      (.string, 1, .string :: .decorator :: modes) := rfl
  exact ((stumbles_step hnext nofun).trans (stumbles_string h _ rest)).trans
    (stumbles_before .decorator nofun)

section

variable {rest : List Char} (before : Option Char)

theorem stumbles_blank {c : Char} (hc : Text.isBlank c = true) :
    Stumbles [.root] before (c :: rest) ↔ Stumbles [.root] (some c) rest := by
  have hnext (before : Option Char) (c : Char) (rest : List Char) (hc : Text.isBlank c = true) :
      next [.root] before c rest = (.text, runLength Text.isBlank (c :: rest), [.root]) :=
    next_of_rule [] ⟨.text, run Text.isBlank, .stay⟩ rfl (List.forall_mem_nil _)
      (runLength_pos hc rest)
  exact stumbles_run hnext nofun hc

theorem stumbles_quoted {body : List Char} {t : Text} (h : StringBody body t) :
    Stumbles [.root] before ('"' :: (body ++ '"' :: rest)) ↔ Stumbles [.root] (some '"') rest := by
  have hnext : next [.root] before '"' (body ++ '"' :: rest) = (.string, 1, [.string, .root]) := rfl
  exact (stumbles_step hnext nofun).trans (stumbles_string h _ rest)

theorem stumbles_blockComment {cs : List Char} (h : afterComment? cs = some rest) :
    Stumbles [.root] before ('(' :: '*' :: cs) ↔ Stumbles [.root] (some ')') rest := by
  have hnext : next [.root] before '(' ('*' :: cs) = (.blockComment, 2, [.comment, .root]) := rfl
  exact (stumbles_step hnext nofun).trans (stumbles_comment h _)

theorem stumbles_lineComment (cs : List Char) :
    Stumbles [.root] before ('/' :: '/' :: cs) ↔
      Stumbles [.root] none (cs.dropWhile (· != '\n')) := by
  have hnext : next [.root] before '/' ('/' :: cs) =
      (.lineComment, 2 + runLength (· != '\n') cs, [.root]) :=
    next_of_rule [⟨.text, run Text.isBlank, .stay⟩] ⟨.lineComment, lineCommentLength, .stay⟩ rfl
      (List.forall_mem_singleton.mpr rfl) (Nat.add_pos_left Nat.two_pos _)
  have hdrop : ('/' :: '/' :: cs).drop (2 + runLength (· != '\n') cs) =
      cs.dropWhile (· != '\n') := by
    rw [Nat.add_comm, List.drop_succ_cons, List.drop_succ_cons, drop_runLength]
  have hword : startsWithWord (cs.dropWhile (· != '\n')) = false := by
    have hhead := List.head?_dropWhile_not (· != '\n') cs
    cases hrest : cs.dropWhile (· != '\n') with
    | nil => rfl
    | cons c rest =>
        rw [hrest] at hhead
        obtain rfl : c = '\n' := by simpa using hhead
        rfl
  rw [stumbles_step hnext nofun, hdrop]
  exact stumbles_before .root fun _ => .inl hword

end

section

variable {c : Char} {rest : List Char} {before : Option Char}

-- The rules before those for operators, names and punctuation match no character that is part of no
-- word or number, unless it opens something.
theorem length_early_rules (hblank : Text.isBlank c = false) (hword : Text.isWord c = false)
    (hslash : c ≠ '/') (hquote : c ≠ '"') (hcomment : exactly ["(*"] before (c :: rest) = 0)
    (hattribute : exactly ["#![", "#["] before (c :: rest) = 0) (hdigit : c.isDigit = false)
    (hnumber : runLength Char.isDigit ((c :: rest).drop (signLength (c :: rest))) = 0) :
    ∀ rule ∈ rootRules.take 13, rule.length before (c :: rest) = 0 := by
  have hrun {p : Char → Bool} (hc : p c = false) : runLength p (c :: rest) = 0 := by
    rw [runLength, List.takeWhile_cons_of_neg (by simp [hc]), List.length_nil]
  have hline : lineCommentLength before (c :: rest) = 0 := by
    rw [lineCommentLength]
    exact fun _ heq => hslash (List.cons.inj heq).1
  have hpercent : percentLength before (c :: rest) = 0 := by
    rw [percentLength, hrun hdigit]
    rfl
  have hfloat : floatLength before (c :: rest) = 0 := by
    rw [floatLength, hnumber]
    rfl
  have hinteger : integerLength before (c :: rest) = 0 := by
    rw [integerLength]
    exact if_pos hnumber
  have hkeyword {words : List String}
      (hwords : (words.all fun word => word.toList.head?.any Char.isLower) = true) :
      anyWord words before (c :: rest) = 0 := anyWord_of_isWord hwords hword before rest
  simp only [rootRules, List.take_succ_cons, List.take_zero, List.forall_mem_cons]
  exact ⟨hrun hblank, hline, hcomment, hattribute, exactly_mark rfl hquote before rest, hpercent,
    hfloat, hinteger, hkeyword (by decide), hkeyword (by decide), hkeyword (by decide),
    hkeyword (by decide), hkeyword (by decide), List.forall_mem_nil _⟩

theorem isPrefixOf_cons_of_head {d : Char} {ds cs : List Char} (h : cs.head? ≠ some d) :
    (d :: ds).isPrefixOf cs = false := by
  cases cs with
  | nil => rfl
  | cons c cs =>
      have hne : d ≠ c := fun heq => h (congrArg some heq.symm)
      rw [List.isPrefixOf, beq_false_of_ne hne, Bool.false_and]

theorem exactly_attribute (before : Option Char) (h : c ≠ '#' ∨ opensAttribute rest = false) :
    exactly ["#![", "#["] before (c :: rest) = 0 := by
  have hopening {tail : List Char} (htail : ∀ more, opensAttribute (tail ++ more) = true) :
      ('#' :: tail).isPrefixOf (c :: rest) = false := by
    rcases h with hc | hopens
    · exact isPrefixOf_cons_of_head fun heq => hc (Option.some.inj heq)
    · refine Bool.eq_false_iff.mpr fun hprefix => ?_
      obtain ⟨more, hmore⟩ := List.isPrefixOf_iff_prefix.mp hprefix
      rw [List.cons_append] at hmore
      rw [← (List.cons.inj hmore).2, htail] at hopens
      cases hopens
  have hfile : "#![".toList = ['#', '!', '['] := rfl
  have hlocal : "#[".toList = ['#', '['] := rfl
  refine exactly_eq_zero (List.forall_mem_cons.mpr ⟨?_, List.forall_mem_singleton.mpr ?_⟩) before
  · rw [hfile]
    exact hopening fun _ => rfl
  · rw [hlocal]
    exact hopening fun _ => rfl

theorem length_early_marks (before : Option Char) (hc : c ∈ marks) (hrest : rest.head? ≠ some '*')
    (hattribute : c ≠ '#' ∨ opensAttribute rest = false) :
    ∀ rule ∈ rootRules.take 13, rule.length before (c :: rest) = 0 := by
  have hall : (marks.all fun c => !Text.isBlank c && !Text.isWord c && c != '/' && c != '"' &&
      !c.isDigit) = true := by decide
  have hfacts := List.all_eq_true.mp hall c hc
  simp only [Bool.and_eq_true, Bool.not_eq_true', bne_iff_ne] at hfacts
  obtain ⟨⟨⟨⟨hblank, hword⟩, hslash⟩, hquote⟩, hdigit⟩ := hfacts
  have hcomment : exactly ["(*"] before (c :: rest) = 0 := by
    have htext : "(*".toList = ['(', '*'] := rfl
    refine exactly_eq_zero (List.forall_mem_singleton.mpr ?_) before
    rw [htext, List.isPrefixOf, isPrefixOf_cons_of_head hrest, Bool.and_false]
  have hnumber : runLength Char.isDigit ((c :: rest).drop (signLength (c :: rest))) = 0 := by
    simp only [marks, List.mem_cons, List.not_mem_nil, or_false] at hc
    rcases hc with rfl | rfl | rfl | rfl | rfl | rfl | rfl | rfl | rfl | rfl | rfl | rfl <;> rfl
  exact length_early_rules hblank hword hslash hquote hcomment (exactly_attribute before hattribute)
    hdigit hnumber

def operatorTexts : List String := ["->", "=", ":", "!", "?"]

def punctuationTexts : List String := ["(", ")", ",", "[", "]", "\x7b", "\x7d"]

-- Outside of comments a mark is read by itself, a number sign apart.
theorem next_mark_root (hc : c ∈ marks) (hhash : c ≠ '#') (hrest : rest.head? ≠ some '*') :
    ∃ kind, kind ≠ .error ∧ next [.root] before c rest = (kind, 1, [.root]) := by
  have hearly := length_early_marks before hc hrest (.inl hhash)
  have hoperator (hone : exactly operatorTexts before (c :: rest) = 1) :
      next [.root] before c rest = (.operator, 1, [.root]) := by
    rw [← hone]
    exact next_of_rule (rootRules.take 13) ⟨.operator, exactly operatorTexts, .stay⟩ rfl hearly
      (Nat.lt_of_lt_of_eq Nat.one_pos hone.symm)
  have hpunctuation (hoperator : exactly operatorTexts before (c :: rest) = 0)
      (hname : nameLength before (c :: rest) = 0)
      (hone : exactly punctuationTexts before (c :: rest) = 1) :
      next [.root] before c rest = (.punctuation, 1, [.root]) := by
    rw [← hone]
    refine next_of_rule (rootRules.take 13 ++
      [⟨.operator, exactly operatorTexts, .stay⟩, ⟨.name, nameLength, .stay⟩])
      ⟨.punctuation, exactly punctuationTexts, .stay⟩ rfl ?_
      (Nat.lt_of_lt_of_eq Nat.one_pos hone.symm)
    refine List.forall_mem_append.mpr ⟨hearly, ?_⟩
    exact List.forall_mem_cons.mpr ⟨hoperator, List.forall_mem_singleton.mpr hname⟩
  simp only [marks, List.mem_cons, List.not_mem_nil, or_false] at hc
  rcases hc with rfl | rfl | rfl | rfl | rfl | rfl | rfl | rfl | rfl | rfl | rfl | rfl
  iterate 7 exact ⟨.punctuation, nofun, hpunctuation rfl rfl rfl⟩
  iterate 4 exact ⟨.operator, nofun, hoperator rfl⟩
  exact absurd rfl hhash

theorem next_loose (h : opensAttribute rest = false) (hrest : rest.head? ≠ some '*') :
    next [.root] before '#' rest = (.error, 1, [.root]) := by
  have hearly := length_early_marks before (by decide : '#' ∈ marks) hrest (.inr h)
  have hlate : ∀ rule ∈ rootRules.drop 13, rule.length before ('#' :: rest) = 0 := by
    simp only [rootRules, List.drop_succ_cons, List.drop_zero, List.forall_mem_cons]
    exact ⟨rfl, rfl, rfl, List.forall_mem_nil _⟩
  have hnone : rootRules.find? (fun rule => 0 < rule.length before ('#' :: rest)) = none := by
    refine List.find?_eq_none.mpr fun rule hrule => ?_
    rw [← List.take_append_drop 13 rootRules] at hrule
    simp [List.forall_mem_append.mpr ⟨hearly, hlate⟩ rule hrule]
  simp only [next, List.headD_cons, Mode.rules, hnone]
  rfl

theorem next_arrow : next [.root] before '-' ('>' :: rest) = (.operator, 2, [.root]) := by
  have hearly : ∀ rule ∈ rootRules.take 13, rule.length before ('-' :: '>' :: rest) = 0 :=
    length_early_rules (by decide) (by decide +kernel) (by decide) (by decide) rfl
      (exactly_attribute before (.inl (by decide))) rfl rfl
  exact next_of_rule (rootRules.take 13) ⟨.operator, exactly operatorTexts, .stay⟩ rfl hearly
    Nat.two_pos

end

section

variable {c : Char} {rest : List Char} (before : Option Char)

theorem stumbles_mark (hc : c ∈ marks) (hhash : c ≠ '#') (hrest : rest.head? ≠ some '*') :
    Stumbles [.root] before (c :: rest) ↔ Stumbles [.root] (some c) rest := by
  obtain ⟨kind, hkind, hnext⟩ := next_mark_root hc hhash hrest
  exact stumbles_step hnext hkind

theorem stumbles_arrow :
    Stumbles [.root] before ('-' :: '>' :: rest) ↔ Stumbles [.root] (some '>') rest :=
  stumbles_step next_arrow nofun

theorem stumbles_loose (h : opensAttribute rest = false) (hrest : rest.head? ≠ some '*') :
    Stumbles [.root] before ('#' :: rest) := by
  rw [stumbles_cons, next_loose h hrest]
  exact .inl rfl

theorem stumbles_attribute (h : opensAttribute rest = true) :
    Stumbles [.root] before ('#' :: rest) ↔ Stumbles [.decorator, .root] none rest := by
  rw [opensAttribute.eq_def] at h
  split at h
  next rest =>
    have hnext : next [.root] before '#' ('[' :: rest) = (.decorator, 2, [.decorator, .root]) := rfl
    have hfront : ∀ c ∈ ['['], c ≠ ']' ∧ c ≠ '"' := by simp
    rw [stumbles_step hnext nofun]
    exact (stumbles_decorator_append hfront none (some '[') rest).symm
  next rest =>
    have hnext : next [.root] before '#' ('!' :: '[' :: rest) =
        (.decorator, 3, [.decorator, .root]) := rfl
    have hfront : ∀ c ∈ ['!', '['], c ≠ ']' ∧ c ≠ '"' := by simp
    rw [stumbles_step hnext nofun]
    exact (stumbles_decorator_append hfront none (some '[') rest).symm
  next => cases h

end

end CardLore.Highlight
