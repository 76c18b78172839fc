import CardLore.Proofs.Comments.Strip
import CardLore.Proofs.Grammar.Number

namespace CardLore

theorem isPlain_of_isKeyChar {c : Char} (h : isKeyChar c = true) : IsPlain c := by
  simp only [IsPlain, List.mem_cons, List.not_mem_nil, or_false]
  rintro (rfl | rfl | rfl | rfl) <;> cases h

theorem isPlain_of_isDigit {c : Char} (h : c.isDigit = true) : IsPlain c :=
  isPlain_of_isKeyChar (isKeyChar_of_isDigit h)

theorem isPlain_of_all {cs : List Char} (h : (cs.all fun c => decide (IsPlain c)) = true) :
    ∀ c ∈ cs, IsPlain c :=
  fun c hc => of_decide_eq_true (List.all_eq_true.mp h c hc)

-- A test of the first character that only plain ones pass.
theorem headIs_stripComments {p : Char → Bool} (hp : ∀ c, p c = true → IsPlain c) (cs : List Char) :
    (stripComments cs).head?.any p = cs.head?.any p := by
  cases cs with
  | nil => rfl
  | cons c rest =>
      by_cases hc : p c = true
      · rw [stripComments_plain (hp c hc)]
        rfl
      · obtain ⟨d, tail, hstrip, hd⟩ := exists_head_of_not hp hc rest
        rw [hstrip]
        change p d = p c
        rw [Bool.eq_false_iff.mpr hc, Bool.eq_false_iff.mpr hd]

theorem isPrefixOf_stripComments {front : List Char} (h : ∀ c ∈ front, IsPlain c) (cs : List Char) :
    front.isPrefixOf (stripComments cs) = front.isPrefixOf cs := by
  induction front generalizing cs with
  | nil => rfl
  | cons f front ih =>
      obtain ⟨hf, hfront⟩ := List.forall_mem_cons.mp h
      cases cs with
      | nil => rfl
      | cons c rest =>
          by_cases hc : IsPlain c
          · rw [stripComments_plain hc, List.isPrefixOf, List.isPrefixOf, ih hfront]
          · obtain ⟨d, tail, hstrip, hd⟩ := exists_head_not_plain hc rest
            have hne : ∀ e, ¬ IsPlain e → (f == e) = false := by
              intro e he
              rw [beq_eq_false_iff_ne]
              rintro rfl
              exact he hf
            rw [hstrip, List.isPrefixOf, List.isPrefixOf, hne c hc, hne d hd]
            rfl

theorem continuesKey_stripComments (cs : List Char) :
    continuesKey (stripComments cs) = continuesKey cs := by
  have heq : ∀ cs, continuesKey cs = cs.head?.any isKeyChar := by
    intro cs
    cases cs <;> rfl
  rw [heq, heq, headIs_stripComments fun c => isPlain_of_isKeyChar]

theorem startsArrow_stripComments (cs : List Char) :
    startsArrow (stripComments cs) = startsArrow cs := by
  have heq : ∀ cs, startsArrow cs = ['-', '>'].isPrefixOf cs := by
    intro cs
    fun_cases startsArrow cs with
    | case1 => rfl
    | case2 cs hnot =>
        symm
        rw [Bool.eq_false_iff, ne_eq, List.isPrefixOf_iff_prefix]
        rintro ⟨rest, rfl⟩
        exact hnot rest rfl
  rw [heq, heq, isPrefixOf_stripComments (isPlain_of_all rfl)]

theorem keyChars_stripComments (cs : List Char) :
    keyChars (stripComments cs) = keyChars cs := by
  induction cs with
  | nil => rfl
  | cons c rest ih =>
      by_cases hc : IsPlain c
      · have harrow := startsArrow_stripComments (c :: rest)
        rw [stripComments_plain hc] at harrow ⊢
        rw [keyChars, keyChars, harrow, ih]
      · obtain ⟨d, tail, hstrip, hd⟩ := exists_head_not_plain hc rest
        have hno : ∀ e rest, ¬ IsPlain e → keyChars (e :: rest) = [] := by
          intro e rest he
          rw [keyChars, Bool.eq_false_iff.mpr fun h => he (isPlain_of_isKeyChar h)]
          rfl
        rw [hstrip, hno c rest hc, hno d tail hd]

theorem keyChars_isPrefix (cs : List Char) : keyChars cs <+: cs := by
  induction cs with
  | nil => exact List.prefix_refl []
  | cons c rest ih =>
      rw [keyChars]
      split
      · exact (List.prefix_cons_inj c).mpr ih
      · exact List.nil_prefix

theorem mem_lowerFrom (before : Text) {cs : List Char} {c : Char} (hc : c ∈ cs)
    (hlow : c.toNat < 128) :
    CodePoint.scalar c.toLower ∈ Text.lowerFrom before (Text.ofChars cs) := by
  induction cs generalizing before with
  | nil => cases hc
  | cons d cs ih =>
      change _ ∈ Text.lowerFrom before (.scalar d :: Text.ofChars cs)
      rw [Text.lowerFrom]
      rcases List.mem_cons.mp hc with rfl | hc
      · have hsigma : c ≠ 'Σ' := by
          rintro rfl
          exact absurd hlow (by decide)
        rw [if_neg hsigma, lowerChar_of_lt hlow]
        exact List.mem_append_left _ List.mem_cons_self
      · exact List.mem_append_right _ (ih (.scalar d :: before) hc)

-- The letters that spell a word are plain.
theorem isPlain_of_lower {w : String} (hw : w ∈ keywords) {cs : List Char}
    (h : Text.lower (Text.ofChars cs) = Text.ofString w) : ∀ c ∈ cs, IsPlain c := by
  intro c hc
  by_contra hnot
  obtain ⟨hlow, hsame, hletter⟩ : c.toNat < 128 ∧ c.toLower = c ∧ c.isLower = false := by
    simp only [IsPlain, List.mem_cons, List.not_mem_nil, or_false, not_not] at hnot
    rcases hnot with rfl | rfl | rfl | rfl <;> decide
  have hmem := mem_lowerFrom [] hc hlow
  rw [← Text.lower, h, hsame] at hmem
  obtain ⟨d, hd, hdc⟩ := List.mem_map.mp hmem
  have hislower := isLower_of_mem_keyword hw hd
  rw [CodePoint.scalar.inj hdc, hletter] at hislower
  cases hislower

theorem matchesWord_stripComments {w : String} (hw : w ∈ keywords) (cs : List Char) :
    MatchesWord w (stripComments cs) ↔ MatchesWord w cs := by
  have hplain : MatchesWord w (stripComments cs) ∨ MatchesWord w cs →
      ∀ c ∈ cs.take w.length, IsPlain c := by
    rintro (⟨hlower, -⟩ | ⟨hlower, -⟩)
    · exact (take_plain_iff w.length cs).mp (isPlain_of_lower hw hlower)
    · exact isPlain_of_lower hw hlower
  have hsame : (∀ c ∈ cs.take w.length, IsPlain c) →
      (MatchesWord w (stripComments cs) ↔ MatchesWord w cs) := by
    intro h
    obtain ⟨htake, hdrop⟩ := take_stripComments h
    rw [MatchesWord, MatchesWord, htake, hdrop, continuesKey_stripComments]
  exact ⟨fun h => (hsame (hplain (.inl h))).mp h, fun h => (hsame (hplain (.inr h))).mpr h⟩

theorem stripFrom_string_raw {c : Char} (hquote : c ≠ '"') (hslash : c ≠ '\\') (rest : List Char) :
    stripFrom .string (c :: rest) = c :: stripFrom .string rest := by
  rw [stripFrom]
  · exact fun d after h => absurd h hslash
  · exact hquote

-- No quote in the text closes a string, since a backslash stands before each.
inductive StaysInside : List Char → Prop
  | nil : StaysInside []
  | raw {c : Char} {cs : List Char} (hquote : c ≠ '"') (hslash : c ≠ '\\') (h : StaysInside cs) :
      StaysInside (c :: cs)
  | escaped {c : Char} {cs : List Char} (h : StaysInside cs) : StaysInside ('\\' :: c :: cs)

theorem StringBody.staysInside {body : List Char} {t : Text} (h : StringBody body t) :
    StaysInside body := by
  have hdigits : ∀ digit ∈ hexDigits, digit.1 ≠ '"' ∧ digit.1 ≠ '\\' := by decide
  have hraw : ∀ {c n cs}, (c, n) ∈ hexDigits → StaysInside cs → StaysInside (c :: cs) :=
    fun hc h => .raw (hdigits _ hc).1 (hdigits _ hc).2 h
  induction h with
  | nil => exact .nil
  | raw hquote hslash _ ih => exact .raw hquote hslash ih
  | short _ _ ih => exact .escaped ih
  | numbered ha hb hc hd _ ih => exact .escaped (hraw ha (hraw hb (hraw hc (hraw hd ih))))

-- A string that is closed stays as it is, and the comments behind it are stripped.
theorem stripFrom_inside {body : List Char} (h : StaysInside body) (after : List Char) :
    stripFrom .string (body ++ '"' :: after) = body ++ '"' :: stripComments after := by
  induction h with
  | nil => rfl
  | raw hquote hslash _ ih =>
      rw [List.cons_append, stripFrom_string_raw hquote hslash, ih, List.cons_append]
  | escaped _ ih =>
      rw [List.cons_append, List.cons_append, stripFrom, ih]
      rfl

theorem exists_inside {body : List Char} (h : StaysInside body) {inside after : List Char}
    (hstrip : stripFrom .string inside = body ++ '"' :: after) :
    ∃ after', inside = body ++ '"' :: after' := by
  induction h generalizing inside with
  | nil =>
      have hhead := head_stripFrom_string inside
      rw [hstrip] at hhead
      obtain ⟨after', rfl⟩ := List.head?_eq_some_iff.mp hhead.symm
      exact ⟨after', rfl⟩
  | @raw c cs hquote hslash _ ih =>
      have hhead := head_stripFrom_string inside
      rw [hstrip] at hhead
      obtain ⟨rest, rfl⟩ := List.head?_eq_some_iff.mp hhead.symm
      rw [stripFrom_string_raw hquote hslash] at hstrip
      obtain ⟨after', rfl⟩ := ih (List.cons.inj hstrip).2
      exact ⟨after', rfl⟩
  | @escaped c cs _ ih =>
      have hhead := head_stripFrom_string inside
      rw [hstrip] at hhead
      obtain ⟨rest, rfl⟩ := List.head?_eq_some_iff.mp hhead.symm
      cases rest with
      | nil => cases hstrip
      | cons d rest =>
          rw [stripFrom] at hstrip
          obtain ⟨rfl, htail⟩ := List.cons.inj (List.cons.inj hstrip).2
          obtain ⟨after', rfl⟩ := ih htail
          exact ⟨after', rfl⟩

theorem scanString_stripFrom (inside : List Char) (t : Text) (n : Nat) :
    scanString (stripFrom .string inside) = .closed t n ↔ scanString inside = .closed t n := by
  constructor
  · intro h
    obtain ⟨body, after, hbody, hstrip, rfl⟩ := exists_body_of_scanString h
    obtain ⟨after', rfl⟩ := exists_inside hbody.staysInside hstrip
    exact scanString_body hbody after'
  · intro h
    obtain ⟨body, after, hbody, rfl, rfl⟩ := exists_body_of_scanString h
    rw [stripFrom_inside hbody.staysInside]
    exact scanString_body hbody _

-- Plain characters in front of the stripped text stand in front of the text.
theorem exists_rest_of_stripComments {front : List Char} (h : ∀ c ∈ front, IsPlain c)
    {cs tail : List Char} (hstrip : stripComments cs = front ++ tail) :
    ∃ rest, cs = front ++ rest ∧ tail = stripComments rest := by
  induction front generalizing cs with
  | nil => exact ⟨cs, rfl, hstrip.symm⟩
  | cons f front ih =>
      obtain ⟨hf, hfront⟩ := List.forall_mem_cons.mp h
      have hblank : f ≠ ' ' := by
        rintro rfl
        exact absurd hf (by decide)
      obtain ⟨rest, rfl⟩ := exists_head hstrip hblank
      rw [stripComments_plain hf] at hstrip
      obtain ⟨after, rfl, htail⟩ := ih hfront (List.cons.inj hstrip).2
      exact ⟨after, rfl, htail⟩

theorem NumberText.plain {body : List Char} {v : Literal} (h : NumberText body v) :
    ∀ c ∈ body, IsPlain c := by
  intro c hc
  rcases h.chars c hc with hkey | rfl
  · exact isPlain_of_isKeyChar hkey
  · decide

theorem leadingSign?_cons (c : Char) (rest : List Char) :
    Parser.leadingSign? (c :: rest) =
      if rest.head?.any Char.isDigit then
        if c = '-' then some true else if c = '+' then some false else none
      else none := by
  by_cases hminus : c = '-'
  · subst hminus
    cases rest <;> rfl
  by_cases hplus : c = '+'
  · subst hplus
    cases rest <;> rfl
  · rw [if_neg hminus, if_neg hplus, ite_self, Parser.leadingSign?]
    · exact fun d after h => absurd (List.cons.inj h).1 hminus
    · exact fun d after h => absurd (List.cons.inj h).1 hplus

theorem isPlain_of_leadingSign {cs : List Char} {negative : Bool}
    (h : Parser.leadingSign? cs = some negative) : ∃ c rest, cs = c :: rest ∧ IsPlain c := by
  obtain ⟨sign, c, rest, rfl, hsign, -⟩ := exists_digit_of_leadingSign? h
  refine ⟨sign, c :: rest, rfl, ?_⟩
  rcases hsign with rfl | rfl <;> decide

theorem leadingSign?_stripComments (cs : List Char) :
    Parser.leadingSign? (stripComments cs) = Parser.leadingSign? cs := by
  cases cs with
  | nil => rfl
  | cons c rest =>
      by_cases hc : IsPlain c
      · rw [stripComments_plain hc, leadingSign?_cons, leadingSign?_cons,
          headIs_stripComments fun c => isPlain_of_isDigit]
      · obtain ⟨d, tail, hstrip, hd⟩ := exists_head_not_plain hc rest
        have hno : ∀ e rest, ¬ IsPlain e → Parser.leadingSign? (e :: rest) = none := by
          intro e rest he
          refine Option.eq_none_iff_forall_ne_some.mpr fun negative h => ?_
          obtain ⟨_, _, ⟨⟩, hplain⟩ := isPlain_of_leadingSign h
          exact he hplain
        rw [hstrip, hno c rest hc, hno d tail hd]

theorem startsNumber_stripComments (cs : List Char) :
    Parser.startsNumber (stripComments cs) = Parser.startsNumber cs := by
  have heq : ∀ cs, Parser.startsNumber cs =
      (cs.head?.any Char.isDigit || (Parser.leadingSign? cs).isSome) := by
    intro cs
    cases cs <;> rfl
  rw [heq, heq, leadingSign?_stripComments, headIs_stripComments fun c => isPlain_of_isDigit]

end CardLore
