import CardLore.Proofs.Highlight.Word

namespace CardLore.Highlight

-- The words that stand out.
def highlightedWords : List String :=
  ["true", "false", "null"] ++ declarationWords ++ structuralWords ++ modifierWords ++
    statementWords

def lead (w : List Char) : List Char :=
  w.takeWhile Text.isWord

-- A number, or one of the words that stand out.
def standsOut (cs : List Char) : Bool :=
  (!cs.isEmpty && cs.all Char.isDigit) ||
    highlightedWords.any fun word => matchesWord word.toList cs && word.length == cs.length

structure IsPlain (w : List Char) : Prop where
  keys : ∀ c ∈ w, isKeyChar c = true
  start : ∃ c, w.head? = some c ∧ c ≠ '-' ∧ c ≠ '.'
  whole : standsOut (lead w) = true → lead w = w

variable {w : List Char}

theorem isWord_of_isDigit {c : Char} (h : c.isDigit = true) : Text.isWord c = true :=
  forall_plain (P := fun c => c.isDigit = true → Text.isWord c = true) (by decide)
    (toNat_lt_of_isKeyChar (isKeyChar_of_isDigit h)) h

theorem lead_eq_take {n : Nat} (hfront : ∀ c ∈ w.take n, Text.isWord c = true)
    (hend : startsWithWord (w.drop n) = false) : lead w = w.take n := by
  have hnone : (w.drop n).takeWhile Text.isWord = [] := by
    cases hdrop : w.drop n with
    | nil => rfl
    | cons c cs =>
        rw [hdrop, startsWithWord] at hend
        exact List.takeWhile_cons_of_neg (by simp [hend])
  conv_lhs => rw [lead, ← List.take_append_drop n w]
  rw [List.takeWhile_append_of_pos hfront, hnone, List.append_nil]

theorem isWord_of_matchesWord {word cs : List Char} (hword : ∀ letter ∈ word, letter.isLower = true)
    (h : matchesWord word cs = true) : ∀ c ∈ cs.take word.length, Text.isWord c = true := by
  induction word generalizing cs with
  | nil => nofun
  | cons letter word ih =>
      cases cs with
      | nil => nofun
      | cons c cs =>
          obtain ⟨hletter, hword⟩ := List.forall_mem_cons.mp hword
          rw [matchesWord, Bool.and_eq_true] at h
          rw [List.length_cons, List.take_succ_cons]
          exact List.forall_mem_cons.mpr ⟨isWord_of_isCaseOf hletter h.1, ih hword h.2⟩

theorem matchesWord_take (word cs : List Char) :
    matchesWord word (cs.take word.length) = matchesWord word cs := by
  induction word generalizing cs with
  | nil => rfl
  | cons letter word ih =>
      cases cs with
      | nil => rfl
      | cons c cs => rw [List.length_cons, List.take_succ_cons, matchesWord, matchesWord, ih]

theorem not_startsWithWord_of_endingWord {n : Nat} (h : 0 < endingWord n w) :
    startsWithWord (w.drop n) = false := by
  refine Bool.eq_false_iff.mpr fun hword => ?_
  rw [endingWord, if_pos hword] at h
  exact Nat.lt_irrefl 0 h

namespace IsPlain

-- What stands out at the front of the key, with no word character behind it, is all of it.
theorem length_of_standsOut (h : IsPlain w) {n : Nat} (hn : n ≤ w.length)
    (hfront : ∀ c ∈ w.take n, Text.isWord c = true) (hend : startsWithWord (w.drop n) = false)
    (hout : standsOut (w.take n) = true) : n = w.length := by
  have hlead := lead_eq_take hfront hend
  have hwhole := h.whole (hlead ▸ hout)
  rw [← hwhole, hlead, List.length_take_of_le hn]

theorem isWordChar (h : IsPlain w) : ∀ c ∈ w, isWordChar c = true := by
  intro c hc
  simp [Highlight.isWordChar, h.keys c hc]

theorem digits_eq (h : IsPlain w) (hpos : 0 < runLength Char.isDigit w)
    (hend : startsWithWord (w.drop (runLength Char.isDigit w)) = false) :
    runLength Char.isDigit w = w.length := by
  have hdigits : ∀ c ∈ w.take (runLength Char.isDigit w), c.isDigit = true := by
    rw [take_runLength]
    exact fun c hc => List.mem_takeWhile_imp hc
  have hne : w.take (runLength Char.isDigit w) ≠ [] := fun hnil => by
    have hlength := congrArg List.length hnil
    rw [List.length_take_of_le (runLength_le _ w)] at hlength
    exact absurd hlength (Nat.ne_of_gt hpos)
  refine h.length_of_standsOut (runLength_le _ w)
    (fun c hc => isWord_of_isDigit (hdigits c hc)) hend ?_
  rw [standsOut, List.all_eq_true.mpr hdigits, List.isEmpty_eq_false_iff.mpr hne]
  rfl

theorem anyWord_eq (h : IsPlain w) {words : List String} (hwords : words ⊆ highlightedWords) :
    anyWord words none w = 0 ∨ anyWord words none w = w.length := by
  have hlower : (highlightedWords.all fun word => word.toList.all Char.isLower) = true := by decide
  rw [anyWord, if_neg (by simp)]
  dsimp only
  split
  next word hfind =>
    have hmatch := List.find?_some hfind
    rw [Bool.and_eq_true, decide_eq_true_eq] at hmatch
    obtain ⟨hmatch, hend⟩ := hmatch
    have hword := hwords (List.mem_of_find?_eq_some hfind)
    have hletters := List.all_eq_true.mp (List.all_eq_true.mp hlower word hword)
    have hle := length_le_of_matchesWord hmatch
    have hfront := isWord_of_matchesWord hletters hmatch
    have hsame := matchesWord_take word.toList w
    rw [String.length_toList] at hle hfront hsame
    refine .inr (h.length_of_standsOut hle hfront (not_startsWithWord_of_endingWord hend) ?_)
    rw [standsOut, Bool.or_eq_true]
    refine .inr (List.any_eq_true.mpr ⟨word, hword, ?_⟩)
    rw [hsame, hmatch, List.length_take_of_le hle, beq_self_eq_true]
    rfl
  next => exact .inl rfl

theorem signLength_eq (h : IsPlain w) : signLength w = 0 := by
  obtain ⟨c, hhead, hhyphen, -⟩ := h.start
  obtain ⟨v, rfl⟩ := List.head?_eq_some_iff.mp hhead
  rw [signLength_cons, if_neg]
  rintro (rfl | rfl)
  · exact absurd (h.keys _ List.mem_cons_self) (by decide)
  · exact hhyphen rfl

theorem signedDigits_eq (h : IsPlain w) : signedDigits w = runLength Char.isDigit w := by
  rw [signedDigits, h.signLength_eq, List.drop_zero]

theorem wholeLength_eq (h : IsPlain w) : wholeLength w = runLength Char.isDigit w := by
  rw [wholeLength, h.signLength_eq, h.signedDigits_eq, Nat.zero_add]

theorem percentLength_eq_zero (h : IsPlain w) : percentLength none w = 0 := by
  rw [percentLength_eq, if_neg]
  rintro ⟨-, hpercent⟩
  have hmem := List.mem_of_mem_drop (List.mem_of_head? hpercent)
  exact absurd (h.keys _ hmem) (by decide)

theorem floatLength_eq_zero (h : IsPlain w) : floatLength none w = 0 := by
  rw [floatLength_eq, if_neg]
  rintro ⟨hpos, hpoint, -⟩
  rw [h.signedDigits_eq] at hpos
  rw [h.wholeLength_eq] at hpoint
  have hlt := lt_length_of_head?_drop hpoint
  obtain ⟨more, hmore⟩ := List.head?_eq_some_iff.mp hpoint
  have hend : startsWithWord (w.drop (runLength Char.isDigit w)) = false := by
    rw [hmore]
    rfl
  exact absurd (h.digits_eq hpos hend) (Nat.ne_of_lt hlt)

theorem integerLength_eq (h : IsPlain w) :
    integerLength none w = 0 ∨ integerLength none w = w.length := by
  have hlength : integerLength none w = if signedDigits w = 0 then 0
      else endingWord (signLength w + signedDigits w) w := rfl
  rw [hlength, h.signLength_eq, h.signedDigits_eq, Nat.zero_add]
  split_ifs with hzero
  · exact .inl rfl
  · cases hend : startsWithWord (w.drop (runLength Char.isDigit w)) with
    | true => exact .inl (by rw [endingWord, hend, if_pos rfl])
    | false =>
        rw [endingWord, hend, if_neg Bool.false_ne_true]
        exact .inr (h.digits_eq (Nat.pos_of_ne_zero hzero) hend)

theorem nameTailLength_eq {v : List Char} (hv : ∀ c ∈ v, isKeyChar c = true) :
    nameTailLength v = v.length := by
  induction v with
  | nil => rfl
  | cons c v ih =>
      obtain ⟨hc, hv⟩ := List.forall_mem_cons.mp hv
      have hnext : v.head? ≠ some '>' := fun hhead =>
        absurd (hv _ (List.mem_of_head? hhead)) (by decide)
      have htail : (isNameChar c || (c == '-' && !startsArrow (c :: v))) = true := by
        rw [startsArrow_cons, beq_false_of_ne hnext, Bool.and_false, Bool.not_false, Bool.and_true]
        simpa [isKeyChar, isNameChar, or_comm, or_assoc, or_left_comm] using hc
      rw [nameTailLength, if_pos htail, ih hv, List.length_cons, Nat.add_comm]

theorem nameLength_eq (h : IsPlain w) : nameLength none w = w.length := by
  obtain ⟨c, hhead, hhyphen, hpoint⟩ := h.start
  obtain ⟨v, rfl⟩ := List.head?_eq_some_iff.mp hhead
  obtain ⟨hc, hv⟩ := List.forall_mem_cons.mp h.keys
  have hname : (isNameChar c && c != '.') = true := by
    simp [isKeyChar, isNameChar, hhyphen, hpoint] at hc ⊢
    exact hc
  rw [nameLength, if_pos hname, nameTailLength_eq hv, List.length_cons, Nat.add_comm]

theorem length_eq (h : IsPlain w) {rule : Rule} (hrule : rule ∈ rootRules) :
    rule.length none w = 0 ∨ rule.length none w = w.length := by
  obtain ⟨c, hhead, -⟩ := h.start
  obtain ⟨v, rfl⟩ := List.head?_eq_some_iff.mp hhead
  obtain ⟨hc, hv⟩ := List.forall_mem_cons.mp h.isWordChar
  rw [← List.take_append_drop 5 rootRules] at hrule
  rcases List.mem_append.mp hrule with hopening | hrule
  · exact .inl (length_opening_rules none hc rule hopening)
  · simp only [rootRules, List.drop_succ_cons, List.drop_zero, List.mem_cons, List.not_mem_nil,
      or_false] at hrule
    rcases hrule with rfl | rfl | rfl | rfl | rfl | rfl | rfl | rfl | rfl | rfl | rfl
    · exact .inl h.percentLength_eq_zero
    · exact .inl h.floatLength_eq_zero
    · exact h.integerLength_eq
    iterate 5
      · refine h.anyWord_eq fun word hword => ?_
        simp only [highlightedWords, List.mem_append, hword, true_or, or_true]
    · have hstart := startsWord_append hc hv .nil
      rw [List.append_nil] at hstart
      exact .inl (exactly_operator none hstart)
    · exact .inr h.nameLength_eq
    · exact .inl (exactly_eq_zero (isPrefixOf_of_isWordChar (by decide) hc) none)

theorem clear (h : IsPlain w) : Clear w := by
  rw [clear_word_iff h.isWordChar]
  obtain ⟨c, hhead, -⟩ := h.start
  obtain ⟨v, rfl⟩ := List.head?_eq_some_iff.mp hhead
  have hkind : ∀ rule ∈ rootRules, rule.kind ≠ .error := by simp [rootRules]
  rw [stumbles_cons, next]
  split
  next rule hfind =>
    have hrule : rule ∈ rootRules := List.mem_of_find?_eq_some hfind
    have hmatch := List.find?_some hfind
    have hlength := (h.length_eq hrule).resolve_left (Nat.ne_of_gt (of_decide_eq_true hmatch))
    rw [hlength, List.drop_length]
    exact not_or.mpr ⟨hkind rule hrule, not_stumbles_nil⟩
  next hnone =>
    have hpos : 0 < nameLength none (c :: v) := by
      rw [h.nameLength_eq]
      exact Nat.succ_pos _
    exact absurd (decide_eq_true hpos)
      (List.find?_eq_none.mp hnone ⟨.name, nameLength, .stay⟩ (by simp [Mode.rules, rootRules]))

end IsPlain

end CardLore.Highlight
