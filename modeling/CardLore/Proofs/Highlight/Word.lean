import CardLore.Proofs.Highlight.Stumble

namespace CardLore.Highlight

variable {v rest : List Char}

theorem facts_of_stops {c : Char} (h : Stops (c :: rest)) :
    Text.isWord c = false ∧ c.isDigit = false ∧ isNameChar c = false ∧ c ≠ '%' := by
  have hall : (('-' :: stopChars).all fun c => !Text.isWord c && !c.isDigit && !isNameChar c &&
      c != '%') = true := by decide
  have hmem : c ∈ '-' :: stopChars := by
    cases h with
    | arrow => exact List.mem_cons_self
    | char hc => exact List.mem_cons_of_mem _ hc
  simpa [and_assoc] using List.all_eq_true.mp hall c hmem

theorem startsWithWord_append (hrest : Stops rest) (cs : List Char) :
    startsWithWord (cs ++ rest) = startsWithWord cs := by
  cases cs with
  | cons c cs => rfl
  | nil =>
      cases rest with
      | nil => rfl
      | cons c rest => exact (facts_of_stops hrest).1

theorem endingWord_append (hrest : Stops rest) {n : Nat} (hn : n ≤ v.length) :
    endingWord n (v ++ rest) = endingWord n v := by
  rw [endingWord, endingWord, List.drop_append_of_le_length hn, startsWithWord_append hrest]

theorem endingWord_le (n : Nat) (cs : List Char) : endingWord n cs ≤ n := by
  rw [endingWord]
  split_ifs
  · exact Nat.zero_le n
  · exact Nat.le_refl n

theorem runLength_le (p : Char → Bool) (cs : List Char) : runLength p cs ≤ cs.length :=
  (List.takeWhile_prefix p).length_le

theorem digits_append (hrest : Stops rest) (cs : List Char) :
    runLength Char.isDigit (cs ++ rest) = runLength Char.isDigit cs := by
  have hnone : rest.takeWhile Char.isDigit = [] := by
    cases rest with
    | nil => rfl
    | cons c rest => exact List.takeWhile_cons_of_neg (by simp [(facts_of_stops hrest).2.1])
  rw [runLength, List.takeWhile_append, hnone, runLength]
  split_ifs with hall
  · rw [List.append_nil, hall]
  · rfl

theorem head?_append_iff {d : Char} (hd : rest.head? ≠ some d) (cs : List Char) :
    (cs ++ rest).head? = some d ↔ cs.head? = some d := by
  cases cs with
  | nil => simpa using hd
  | cons c cs => rfl

theorem lt_length_of_head?_drop {n : Nat} {cs : List Char} {d : Char}
    (h : (cs.drop n).head? = some d) : n < cs.length := by
  rw [List.head?_drop] at h
  exact (List.getElem?_eq_some_iff.mp h).1

theorem signLength_cons (c : Char) (cs : List Char) :
    signLength (c :: cs) = if c = '+' ∨ c = '-' then 1 else 0 := by
  rw [signLength.eq_def]
  split
  next heq => rw [(List.cons.inj heq).1, if_pos (.inl rfl)]
  next heq => rw [(List.cons.inj heq).1, if_pos (.inr rfl)]
  next hplus hminus =>
    refine (if_neg ?_).symm
    rintro (rfl | rfl)
    · exact hplus cs rfl
    · exact hminus cs rfl

theorem signLength_append (hv : v ≠ []) (rest : List Char) :
    signLength (v ++ rest) = signLength v := by
  obtain ⟨c, v, rfl⟩ := List.exists_cons_of_ne_nil hv
  rw [List.cons_append, signLength_cons, signLength_cons]

theorem signLength_le (cs : List Char) : signLength cs ≤ cs.length := by
  rw [signLength.eq_def]
  split <;> simp

-- The digits behind a sign, if there is one.
def signedDigits (cs : List Char) : Nat :=
  runLength Char.isDigit (cs.drop (signLength cs))

theorem signedDigits_append (hrest : Stops rest) (v : List Char) :
    signedDigits (v ++ rest) = signedDigits v := by
  cases v with
  | cons c v =>
      rw [signedDigits, signLength_append (List.cons_ne_nil c v), List.drop_append_of_le_length
        (signLength_le _), digits_append hrest, signedDigits]
  | nil =>
      cases hrest with
      | nil => rfl
      | arrow => rfl
      | @char c cs hc =>
          have hsign : ¬ (c = '+' ∨ c = '-') := by
            rintro (rfl | rfl) <;> exact absurd hc (by decide)
          have hdigit : ¬ c.isDigit = true := by simp [(facts_of_stops (@Stops.char c cs hc)).2.1]
          rw [List.nil_append, signedDigits, signLength_cons, if_neg hsign, List.drop_zero,
            runLength, List.takeWhile_cons_of_neg hdigit]
          rfl

theorem signLength_add_signedDigits_le (cs : List Char) :
    signLength cs + signedDigits cs ≤ cs.length := by
  have hsign := signLength_le cs
  have hdigits := runLength_le Char.isDigit (cs.drop (signLength cs))
  rw [List.length_drop] at hdigits
  rw [signedDigits]
  omega

theorem percentLength_eq (before : Option Char) (cs : List Char) :
    percentLength before cs =
      if 0 < runLength Char.isDigit cs ∧ (cs.drop (runLength Char.isDigit cs)).head? = some '%' then
        runLength Char.isDigit cs + 1
      else 0 := by
  rw [percentLength]
  generalize runLength Char.isDigit cs = digits
  generalize cs.drop digits = tail
  split
  next => rfl
  next hdigits => rw [if_pos ⟨Nat.pos_of_ne_zero hdigits, rfl⟩]
  next hdigits hpercent =>
    refine (if_neg fun h => ?_).symm
    obtain ⟨more, rfl⟩ := List.head?_eq_some_iff.mp h.2
    exact hpercent more rfl

theorem percentLength_append (hrest : Stops rest) (before : Option Char) (v : List Char) :
    percentLength before (v ++ rest) = percentLength before v ∧
      percentLength before v ≤ v.length := by
  have hpercent : rest.head? ≠ some '%' := by
    cases rest with
    | nil => nofun
    | cons c rest => exact fun heq => (facts_of_stops hrest).2.2.2 (Option.some.inj heq)
  rw [percentLength_eq, percentLength_eq, digits_append hrest,
    List.drop_append_of_le_length (runLength_le _ v)]
  simp only [head?_append_iff hpercent, true_and]
  split_ifs with h
  · exact lt_length_of_head?_drop h.2
  · exact Nat.zero_le _

theorem integerLength_append (hrest : Stops rest) (hv : v ≠ []) (before : Option Char) :
    integerLength before (v ++ rest) = integerLength before v ∧
      integerLength before v ≤ v.length := by
  have hlength (cs : List Char) : integerLength before cs =
      if signedDigits cs = 0 then 0 else endingWord (signLength cs + signedDigits cs) cs := rfl
  have hle := signLength_add_signedDigits_le v
  rw [hlength, hlength, signedDigits_append hrest, signLength_append hv,
    endingWord_append hrest hle]
  refine ⟨rfl, ?_⟩
  split_ifs
  · exact Nat.zero_le _
  · exact Nat.le_trans (endingWord_le _ v) hle

theorem exponentLength_append (hrest : Stops rest) (cs : List Char) :
    exponentLength (cs ++ rest) = exponentLength cs ∧ exponentLength cs ≤ cs.length := by
  have hlength (c : Char) (cs : List Char) : exponentLength (c :: cs) =
      if (c = 'e' ∨ c = 'E') ∧ 0 < signedDigits cs then 1 + signLength cs + signedDigits cs
      else 0 := rfl
  cases cs with
  | nil =>
      refine ⟨?_, Nat.le_refl 0⟩
      cases rest with
      | nil => rfl
      | cons c rest =>
          have hword := (facts_of_stops hrest).1
          rw [List.nil_append, hlength, if_neg]
          · rfl
          · rintro ⟨rfl | rfl, -⟩ <;> cases hword
  | cons c cs =>
      rw [List.cons_append, hlength, hlength, signedDigits_append hrest]
      refine ⟨?_, ?_⟩
      · split_ifs with h
        · have hcs : cs ≠ [] := by
            rintro rfl
            exact absurd h.2 (by decide)
          rw [signLength_append hcs]
        · rfl
      · have hle := signLength_add_signedDigits_le cs
        rw [List.length_cons]
        split_ifs <;> omega

-- A number up to the point, and the digits behind it.
def wholeLength (cs : List Char) : Nat :=
  signLength cs + signedDigits cs

def fractionLength (cs : List Char) : Nat :=
  runLength Char.isDigit (cs.drop (wholeLength cs + 1))

theorem floatLength_eq (before : Option Char) (cs : List Char) :
    floatLength before cs =
      if 0 < signedDigits cs ∧ (cs.drop (wholeLength cs)).head? = some '.' ∧
          0 < fractionLength cs then
        endingWord (wholeLength cs + 1 + fractionLength cs +
          exponentLength (cs.drop (wholeLength cs + 1 + fractionLength cs))) cs
      else 0 := by
  have hwhole : runLength Char.isDigit (cs.drop (signLength cs)) = signedDigits cs := rfl
  have hlength : signLength cs + signedDigits cs = wholeLength cs := rfl
  have htail : fractionLength cs = runLength Char.isDigit (cs.drop (wholeLength cs)).tail := by
    rw [List.tail_drop]
    rfl
  rw [htail]
  simp only [floatLength, hwhole, hlength]
  split
  next hzero => rw [if_neg (by simp [hzero])]
  next rest hpoint hdigits =>
    rw [hpoint, List.tail_cons]
    split_ifs with hfraction hall hall
    · exact absurd hfraction (Nat.ne_of_gt hall.2.2)
    · rfl
    · rfl
    · exact absurd ⟨Nat.pos_of_ne_zero hdigits, rfl, Nat.pos_of_ne_zero hfraction⟩ hall
  next hdigits hpoint =>
    refine (if_neg fun h => ?_).symm
    obtain ⟨more, heq⟩ := List.head?_eq_some_iff.mp h.2.1
    exact hpoint more heq

theorem floatLength_append (hrest : Stops rest) (hv : v ≠ []) (before : Option Char) :
    floatLength before (v ++ rest) = floatLength before v ∧ floatLength before v ≤ v.length := by
  have hpoint : rest.head? ≠ some '.' := by
    cases rest with
    | nil => nofun
    | cons c rest =>
        rintro ⟨⟩
        cases (facts_of_stops hrest).2.2.1
  have hwhole : wholeLength (v ++ rest) = wholeLength v := by
    rw [wholeLength, signLength_append hv, signedDigits_append hrest, wholeLength]
  have hle : wholeLength v ≤ v.length := signLength_add_signedDigits_le v
  rw [floatLength_eq, floatLength_eq, hwhole, signedDigits_append hrest,
    List.drop_append_of_le_length hle]
  simp only [head?_append_iff hpoint]
  by_cases h : (v.drop (wholeLength v)).head? = some '.'
  · have hlt := lt_length_of_head?_drop h
    have hfraction : fractionLength (v ++ rest) = fractionLength v := by
      rw [fractionLength, hwhole, List.drop_append_of_le_length hlt, digits_append hrest,
        fractionLength]
    have hlength : wholeLength v + 1 + fractionLength v ≤ v.length := by
      have hdigits := runLength_le Char.isDigit (v.drop (wholeLength v + 1))
      rw [List.length_drop] at hdigits
      rw [fractionLength]
      omega
    have hexponent := exponentLength_append hrest (v.drop (wholeLength v + 1 + fractionLength v))
    rw [List.length_drop] at hexponent
    have hend : wholeLength v + 1 + fractionLength v +
        exponentLength (v.drop (wholeLength v + 1 + fractionLength v)) ≤ v.length := by
      omega
    rw [hfraction, List.drop_append_of_le_length hlength, hexponent.1, endingWord_append hrest hend]
    refine ⟨rfl, ?_⟩
    split_ifs
    · exact Nat.le_trans (endingWord_le _ v) hend
    · exact Nat.zero_le _
  · rw [if_neg fun hall => h hall.2.1, if_neg fun hall => h hall.2.1]
    exact ⟨rfl, Nat.zero_le _⟩

theorem matchesWord_append (hrest : Stops rest) {word : List Char}
    (hword : ∀ letter ∈ word, letter.isLower = true) (cs : List Char) :
    matchesWord word (cs ++ rest) = matchesWord word cs := by
  induction word generalizing cs with
  | nil => rfl
  | cons letter word ih =>
      obtain ⟨hletter, hword⟩ := List.forall_mem_cons.mp hword
      cases cs with
      | cons c cs => rw [List.cons_append, matchesWord, matchesWord, ih hword]
      | nil =>
          cases rest with
          | nil => rfl
          | cons c rest =>
              have hc := (facts_of_stops hrest).1
              have hcase : isCaseOf letter c = false := Bool.eq_false_iff.mpr fun hcase => by
                rw [isWord_of_isCaseOf hletter hcase] at hc
                cases hc
              rw [List.nil_append, matchesWord, hcase, Bool.false_and]
              rfl

theorem length_le_of_matchesWord {word cs : List Char} (h : matchesWord word cs = true) :
    word.length ≤ cs.length := by
  induction word generalizing cs with
  | nil => exact Nat.zero_le _
  | cons letter word ih =>
      cases cs with
      | nil => cases h
      | cons c cs =>
          rw [matchesWord, Bool.and_eq_true] at h
          exact Nat.succ_le_succ (ih h.2)

theorem anyWord_append (hrest : Stops rest) {words : List String}
    (hwords : (words.all fun word => word.toList.all Char.isLower) = true) (before : Option Char)
    (v : List Char) :
    anyWord words before (v ++ rest) = anyWord words before v ∧
      anyWord words before v ≤ v.length := by
  have hfind : words.find? (fun word => matchesWord word.toList (v ++ rest) &&
      0 < endingWord word.length (v ++ rest)) =
      words.find? (fun word => matchesWord word.toList v && 0 < endingWord word.length v) := by
    refine List.find?_congr fun word hword => ?_
    have hlower := List.all_eq_true.mp (List.all_eq_true.mp hwords word hword)
    rw [matchesWord_append hrest hlower]
    cases hmatch : matchesWord word.toList v with
    | false => rfl
    | true =>
        have hle := length_le_of_matchesWord hmatch
        rw [String.length_toList] at hle
        rw [endingWord_append hrest hle]
  rw [anyWord, anyWord]
  split_ifs
  · exact ⟨rfl, Nat.zero_le _⟩
  simp only [hfind]
  refine ⟨trivial, ?_⟩
  split
  next word hword =>
    have hmatch := List.find?_some hword
    rw [Bool.and_eq_true] at hmatch
    rw [← String.length_toList]
    exact length_le_of_matchesWord hmatch.1
  next => exact Nat.zero_le _

theorem nameTailLength_append (hrest : Stops rest) (hv : ∀ c ∈ v, isWordChar c = true) :
    nameTailLength (v ++ rest) = nameTailLength v ∧ nameTailLength v ≤ v.length := by
  have harrow {c : Char} {cs : List Char} (h : startsWord (c :: cs) = true) :
      startsArrow (c :: cs) = false := by
    rw [startsWord, Bool.and_eq_true, Bool.not_eq_true'] at h
    exact h.2
  induction v with
  | nil =>
      refine ⟨?_, Nat.le_refl 0⟩
      cases rest with
      | nil => rfl
      | cons c rest =>
          have hname := (facts_of_stops hrest).2.2.1
          have hhyphen : (c == '-' && !startsArrow (c :: rest)) = false := by
            refine Bool.eq_false_iff.mpr fun h => ?_
            rw [Bool.and_eq_true, beq_iff_eq] at h
            obtain ⟨rfl, hno⟩ := h
            have hword := not_startsWord hrest
            rw [startsWord, hno] at hword
            cases hword
          rw [List.nil_append, nameTailLength, nameTailLength, hname, hhyphen]
          rfl
  | cons c v ih =>
      obtain ⟨hc, hv⟩ := List.forall_mem_cons.mp hv
      have hlong := harrow (startsWord_append hc hv hrest)
      have hshort := harrow (startsWord_append hc hv .nil)
      rw [List.append_nil] at hshort
      rw [List.cons_append, nameTailLength, nameTailLength, hlong, hshort, (ih hv).1,
        List.length_cons]
      refine ⟨rfl, ?_⟩
      have hle := (ih hv).2
      split_ifs <;> omega

theorem nameLength_append (hrest : Stops rest) (hv : ∀ c ∈ v, isWordChar c = true) (hne : v ≠ [])
    (before : Option Char) :
    nameLength before (v ++ rest) = nameLength before v ∧ nameLength before v ≤ v.length := by
  obtain ⟨c, v, rfl⟩ := List.exists_cons_of_ne_nil hne
  obtain ⟨htail, hle⟩ := nameTailLength_append hrest (List.forall_mem_cons.mp hv).2
  rw [List.cons_append, nameLength, nameLength, htail, List.length_cons]
  refine ⟨rfl, ?_⟩
  split_ifs <;> omega

theorem isBlank_of_isWordChar {c : Char} (h : isWordChar c = true) : Text.isBlank c = false := by
  have hplain : c.toNat < 128 ∨ c = '\u212a' := by
    simp only [isWordChar, Bool.or_eq_true, beq_iff_eq] at h
    rcases h with ((hkey | rfl) | rfl) | rfl
    · exact .inl (toNat_lt_of_isKeyChar hkey)
    · exact .inl (by decide)
    · exact .inl (by decide)
    · exact .inr rfl
  rcases hplain with hlt | rfl
  · exact forall_plain (P := fun c => isWordChar c = true → Text.isBlank c = false)
      (by decide) hlt h
  · decide

section

variable {c : Char} {cs : List Char} (before : Option Char)

theorem isPrefixOf_of_isWordChar {texts : List String}
    (htexts : (texts.all fun text => text.toList.head?.any fun d => !isWordChar d) = true)
    (hc : isWordChar c = true) : ∀ text ∈ texts, text.toList.isPrefixOf (c :: cs) = false := by
  intro text htext
  have hhead := List.all_eq_true.mp htexts text htext
  cases hletters : text.toList with
  | nil =>
      rw [hletters] at hhead
      cases hhead
  | cons d tail =>
      rw [hletters] at hhead
      have hd : isWordChar d = false := by simpa using hhead
      exact isPrefixOf_cons_of_head fun heq => ne_of_isWordChar hc hd (Option.some.inj heq)

-- The rules for what is no word match nothing of one.
theorem length_opening_rules (hc : isWordChar c = true) :
    ∀ rule ∈ rootRules.take 5, rule.length before (c :: cs) = 0 := by
  have hblank : run Text.isBlank before (c :: cs) = 0 := by
    rw [run, runLength, List.takeWhile_cons_of_neg (by simp [isBlank_of_isWordChar hc]),
      List.length_nil]
  have hline : lineCommentLength before (c :: cs) = 0 := by
    rw [lineCommentLength]
    exact fun _ heq => ne_of_isWordChar hc rfl (List.cons.inj heq).1
  simp only [rootRules, List.take_succ_cons, List.take_zero, List.forall_mem_cons]
  exact ⟨hblank, hline, exactly_eq_zero (isPrefixOf_of_isWordChar (by decide) hc) before,
    exactly_eq_zero (isPrefixOf_of_isWordChar (by decide) hc) before,
    exactly_eq_zero (isPrefixOf_of_isWordChar (by decide) hc) before, List.forall_mem_nil _⟩

theorem exactly_operator (h : startsWord (c :: cs) = true) :
    exactly operatorTexts before (c :: cs) = 0 := by
  rw [startsWord, Bool.and_eq_true, Bool.not_eq_true', startsArrow_cons] at h
  obtain ⟨hc, harrow⟩ := h
  have htext : "->".toList = ['-', '>'] := rfl
  refine exactly_eq_zero (List.forall_mem_cons.mpr ⟨?_, ?_⟩) before
  · rw [htext, List.isPrefixOf]
    by_cases hhyphen : c = '-'
    · have hnext : cs.head? ≠ some '>' := by simpa [hhyphen] using harrow
      rw [isPrefixOf_cons_of_head hnext, Bool.and_false]
    · rw [beq_false_of_ne (Ne.symm hhyphen), Bool.false_and]
  · exact isPrefixOf_of_isWordChar (by decide) hc

end

-- What a rule matches of a word lies in the word and does not depend on what is behind it.
theorem length_append {rule : Rule} (hrule : rule ∈ rootRules) (hv : ∀ c ∈ v, isWordChar c = true)
    (hne : v ≠ []) (hrest : Stops rest) (before : Option Char) :
    rule.length before (v ++ rest) = rule.length before v ∧ rule.length before v ≤ v.length := by
  have hzero (h : ∀ cs, Stops cs → rule.length before (v ++ cs) = 0) :
      rule.length before (v ++ rest) = rule.length before v ∧ rule.length before v ≤ v.length := by
    have hnil := h [] .nil
    rw [List.append_nil] at hnil
    rw [h rest hrest, hnil]
    exact ⟨rfl, Nat.zero_le _⟩
  obtain ⟨c, v, rfl⟩ := List.exists_cons_of_ne_nil hne
  obtain ⟨hc, htail⟩ := List.forall_mem_cons.mp hv
  rw [← List.take_append_drop 5 rootRules] at hrule
  rcases List.mem_append.mp hrule with hopening | hrule
  · exact hzero fun cs _ => length_opening_rules before hc rule hopening
  · simp only [rootRules, List.drop_succ_cons, List.drop_zero, List.mem_cons, List.not_mem_nil,
      or_false] at hrule
    rcases hrule with rfl | rfl | rfl | rfl | rfl | rfl | rfl | rfl | rfl | rfl | rfl
    · exact percentLength_append hrest before _
    · exact floatLength_append hrest hne before
    · exact integerLength_append hrest hne before
    iterate 5 exact anyWord_append hrest (by decide) before _
    · exact hzero fun cs hcs => exactly_operator before (startsWord_append hc htail hcs)
    · exact nameLength_append hrest hv hne before
    · exact hzero fun cs _ => exactly_eq_zero (isPrefixOf_of_isWordChar (by decide) hc) before

-- In a word nothing is entered.
theorem next_word_modes {c : Char} (hv : ∀ d ∈ c :: v, isWordChar d = true) (before : Option Char) :
    (next [.root] before c v).2.1 ≤ (c :: v).length ∧ (next [.root] before c v).2.2 = [.root] := by
  have hc : isWordChar c = true := hv c List.mem_cons_self
  have hstay : ∀ rule ∈ rootRules.drop 5, rule.turn = .stay := by
    simp [rootRules]
  rw [next]
  split
  next rule hfind =>
    have hrule : rule ∈ rootRules := List.mem_of_find?_eq_some hfind
    have hmatch := List.find?_some hfind
    have hpos := of_decide_eq_true hmatch
    refine ⟨(length_append hrule hv (List.cons_ne_nil c v) .nil before).2, ?_⟩
    rw [← List.take_append_drop 5 rootRules] at hrule
    rcases List.mem_append.mp hrule with hopening | hrule
    · exact absurd (length_opening_rules before hc rule hopening) (Nat.ne_of_gt hpos)
    · rw [hstay rule hrule]
      rfl
  next =>
    rw [if_neg (ne_of_isWordChar hc rfl)]
    exact ⟨Nat.succ_le_succ (Nat.zero_le _), rfl⟩

theorem startsWithWord_of_stops (hrest : Stops rest) : startsWithWord rest = false := by
  rw [← List.nil_append rest, startsWithWord_append hrest]
  rfl

-- A word is cut as it would be alone, and so is what stands behind it.
theorem stumbles_word_append (hv : ∀ c ∈ v, isWordChar c = true) (hrest : Stops rest)
    (before before' : Option Char) :
    Stumbles [.root] before (v ++ rest) ↔
      Stumbles [.root] before v ∨ Stumbles [.root] before' rest := by
  induction hn : v.length using Nat.strong_induction_on generalizing v before with
  | _ n ih =>
      cases v with
      | nil =>
          rw [List.nil_append, or_iff_right not_stumbles_nil]
          exact stumbles_before .root fun _ => .inl (startsWithWord_of_stops hrest)
      | cons c v =>
          have hnext : next [.root] before c (v ++ rest) = next [.root] before c v :=
            next_congr fun rule hrule =>
              (length_append hrule hv (List.cons_ne_nil c v) hrest before).1
          obtain ⟨hle, hmodes⟩ := next_word_modes hv before
          have hpos := length_next_pos [.root] before c v
          rw [List.cons_append, stumbles_cons, stumbles_cons, hnext, hmodes, ← List.cons_append,
            List.take_append_of_le_length hle, List.drop_append_of_le_length hle, or_assoc]
          refine or_congr_right (ih _ ?_ ?_ _ rfl)
          · rw [← hn, List.length_drop, List.length_cons]
            omega
          · exact fun d hd => hv d (List.mem_of_mem_drop hd)

-- No token of the text is an error.
def Clear (cs : List Char) : Prop :=
  ∀ token ∈ tokens cs, token.kind ≠ .error

theorem clear_iff (cs : List Char) : Clear cs ↔ ¬ Stumbles [.root] none (prepare cs) := by
  rw [Stumbles, not_exists]
  exact forall_congr' fun _ => not_and.symm

theorem clear_word_iff (hv : ∀ c ∈ v, isWordChar c = true) :
    Clear v ↔ ¬ Stumbles [.root] none v := by
  have hfeed : '\n' ∉ v := fun hmem => ne_of_isWordChar (hv _ hmem) rfl rfl
  have hreturn : '\r' ∉ v := fun hmem => ne_of_isWordChar (hv _ hmem) rfl rfl
  have hmark : v.head? ≠ some '\ufeff' := fun hhead =>
    ne_of_isWordChar (hv _ (List.mem_of_head? hhead)) rfl rfl
  have hend : ¬ Stumbles [.root] none ['\n'] := by
    rw [stumbles_blank none (by decide)]
    exact not_stumbles_nil
  rw [clear_iff, prepare_line hfeed hreturn hmark,
    stumbles_word_append hv (.char (by decide)) none none, or_iff_left hend]

end CardLore.Highlight
