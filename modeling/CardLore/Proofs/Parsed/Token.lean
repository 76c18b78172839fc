import CardLore.Proofs.Construction.Invariant
import CardLore.Proofs.Parsed.Basic
import CardLore.Proofs.Reading.Token

namespace CardLore

theorem isKeyChar_of_mem_keyChars {cs : List Char} {c : Char} (hc : c ∈ keyChars cs) :
    isKeyChar c = true := by
  induction cs with
  | nil => cases hc
  | cons d cs ih =>
      rw [keyChars] at hc
      split at hc
      · rename_i hd
        rcases List.mem_cons.mp hc with rfl | hc
        · exact (Bool.and_eq_true_iff.mp hd).1
        · exact ih hc
      · cases hc

theorem valid_ofChars {cs : List Char} (hne : cs ≠ []) (hcs : ∀ c ∈ cs, isKeyChar c = true) :
    (Key.ofChars cs).Valid := by
  refine ⟨by simpa [Key.ofChars, Text.ofChars] using hne, ?_⟩
  simpa [Key.ofChars, Text.ofChars, CodePoint.isKeyPoint] using hcs

-- The identifier that is read is the one behind the trivia.
theorem key_eq_ok {ctx : Context} {s next : State} {k : Key}
    (h : Parser.key ctx s = .ok k next) :
    ∃ crossed s', Parser.skipTrivia ctx s = .ok crossed s' ∧ keyChars s'.rest ≠ [] ∧
      k = Key.ofChars (keyChars s'.rest) := by
  obtain ⟨crossed, s', hskip, h⟩ := bind_eq_ok_iff.mp h
  obtain ⟨_, _, ⟨⟩, h⟩ := bind_eq_ok_iff.mp h
  refine ⟨crossed, s', hskip, ?_⟩
  cases hcs : keyChars s'.rest with
  | nil =>
      rw [hcs] at h
      cases h
  | cons c cs =>
      rw [hcs] at h
      cases h
      exact ⟨List.cons_ne_nil _ _, rfl⟩

theorem decimalValue_lt {digits : List Char} (hdigits : ∀ c ∈ digits, c.isDigit = true) :
    decimalValue digits < 10 ^ digits.length := by
  induction digits using List.reverseRecOn with
  | nil => exact Nat.one_pos
  | append_singleton digits c ih =>
      obtain ⟨hdigits, hc⟩ := List.forall_mem_append.mp hdigits
      have hlt := ih hdigits
      have hdigit : c.toNat - '0'.toNat ≤ 9 := by
        obtain ⟨-, hle⟩ := Char.isDigit_iff_toNat.mp (hc c List.mem_cons_self)
        exact Nat.sub_le_sub_right hle _
      have hvalue : decimalValue (digits ++ [c]) =
          10 * decimalValue digits + (c.toNat - '0'.toNat) := by
        rw [decimalValue, List.foldl_append]
        rfl
      rw [hvalue, List.length_append, List.length_singleton, Nat.pow_succ]
      omega

theorem isInteger_of_digits {digits : List Char} (hdigits : ∀ c ∈ digits, c.isDigit = true)
    (hlength : digits.length ≤ maxIntegerDigits) {n : Int} (hn : n.natAbs = decimalValue digits) :
    IsInteger n := by
  rw [IsInteger, Nat.length_toDigits_le_iff (by decide) (by decide), hn]
  exact Nat.lt_of_lt_of_le (decimalValue_lt hdigits) (Nat.pow_le_pow_right (by decide) hlength)

theorem digits_of_isNumber {cs : List Char} (h : (Key.ofChars cs).IsNumber) :
    (∀ c ∈ cs, c.isDigit = true) ∧ cs.length ≤ maxIntegerDigits := by
  obtain ⟨-, hdigits, hlength⟩ := h
  refine ⟨fun c hc => hdigits (.scalar c) (List.mem_map_of_mem hc), ?_⟩
  simpa [Key.ofChars, Text.ofChars] using hlength

theorem startsArrow_digit {c : Char} (hc : c.isDigit = true) (cs : List Char) :
    startsArrow (c :: cs) = false := by
  unfold startsArrow
  split
  next heq =>
    obtain ⟨rfl, -⟩ := List.cons.inj heq
    cases hc
  next => rfl

-- An identifier of digits ends where the digits do, and at an arrow if it could go on.
theorem takeWhile_keyChars {cs : List Char} (h : ∀ c ∈ keyChars cs, c.isDigit = true) :
    cs.takeWhile Char.isDigit = keyChars cs ∧
      (continuesKey (cs.dropWhile Char.isDigit) = true →
        startsArrow (cs.dropWhile Char.isDigit) = true) := by
  induction cs with
  | nil => exact ⟨rfl, fun hcontinues => absurd hcontinues Bool.false_ne_true⟩
  | cons c cs ih =>
      by_cases hc : c.isDigit = true
      · have hkey : keyChars (c :: cs) = c :: keyChars cs := by
          rw [keyChars, isKeyChar_of_isDigit hc, startsArrow_digit hc]
          rfl
        rw [hkey] at h
        obtain ⟨htake, hdrop⟩ := ih fun d hd => h d (List.mem_cons_of_mem c hd)
        rw [hkey, List.takeWhile_cons_of_pos hc, List.dropWhile_cons_of_pos hc, htake]
        exact ⟨rfl, hdrop⟩
      · rw [List.takeWhile_cons_of_neg hc, List.dropWhile_cons_of_neg hc]
        by_cases hkey : isKeyChar c && !startsArrow (c :: cs)
        · rw [keyChars, if_pos hkey] at h
          exact absurd (h c List.mem_cons_self) hc
        · rw [keyChars, if_neg hkey]
          refine ⟨rfl, fun hcontinues => ?_⟩
          change isKeyChar c = true at hcontinues
          simpa [hcontinues] using hkey

theorem exists_unsigned {ctx : Context} {s s' : State} {crossed : Bool}
    (hskip : Parser.skipTrivia ctx s = .ok crossed s') (hne : keyChars s'.rest ≠ [])
    (h : (Key.ofChars (keyChars s'.rest)).IsNumber) :
    ∃ next, Parser.unsigned ctx s = .ok (decimalValue (keyChars s'.rest)) next := by
  obtain ⟨hdigits, hlength⟩ := digits_of_isNumber h
  obtain ⟨htake, harrow⟩ := takeWhile_keyChars hdigits
  have hempty : (keyChars s'.rest).isEmpty = false := List.isEmpty_eq_false_iff.mpr hne
  have hends : ¬ (continuesKey (s'.rest.dropWhile Char.isDigit) = true ∧
      (!startsArrow (s'.rest.dropWhile Char.isDigit)) = true) := by
    rintro ⟨hcontinues, hno⟩
    rw [harrow hcontinues] at hno
    cases hno
  refine ⟨s'.advance (keyChars s'.rest).length, ?_⟩
  simp only [Parser.unsigned, bind, Parser.bind, hskip, Parser.ahead, htake, hempty,
    Bool.false_eq_true, false_or, if_neg hends, if_neg (Nat.not_lt.mpr hlength), Parser.advance,
    pure, Parser.pure]

-- Skipping trivia depends on the text only.
theorem skipTrivia_congr {ctx : Context} {s t t' : State} {crossed : Bool}
    (h : Parser.skipTrivia ctx t = .ok crossed t') (hpos : t.pos = s.pos) (hrest : t.rest = s.rest) :
    ∃ s', Parser.skipTrivia ctx s = .ok crossed s' ∧ s'.rest = t'.rest := by
  rw [Parser.skipTrivia, Parser.skipTriviaWith_eq, hpos, hrest] at h
  rw [Parser.skipTrivia, Parser.skipTriviaWith_eq]
  cases hscan : Trivia.skip ctx.newlines s.pos s.rest with
  | stopped pos rest crossed =>
      rw [hscan] at h
      cases h
      exact ⟨_, rfl, rfl⟩
  | unclosed start =>
      rw [hscan] at h
      cases h

theorem skipTrivia_key {ctx : Context} {s : State} {c : Char} {cs : List Char}
    (hrest : s.rest = c :: cs) (hc : isKeyChar c = true) :
    Parser.skipTrivia ctx s = .ok false s := by
  obtain ⟨hline, hspace, hslash, hopen⟩ := not_trivia_of_isKeyChar hc
  have hscan := scan_stop cs hline hspace hslash (fun h => absurd h hopen) ctx.newlines s.pos false
  rw [Parser.skipTrivia, Parser.skipTriviaWith_eq, hrest, Trivia.skip, hscan, ← hrest]

theorem exists_cons_of_keyChars {cs : List Char} (h : keyChars cs ≠ []) :
    ∃ c tail, cs = c :: tail ∧ isKeyChar c = true ∧ keyChars cs = c :: keyChars tail := by
  cases cs with
  | nil => exact absurd rfl h
  | cons c tail =>
      by_cases hc : isKeyChar c && !startsArrow (c :: tail)
      · refine ⟨c, tail, rfl, (Bool.and_eq_true_iff.mp hc).1, ?_⟩
        rw [keyChars, if_pos hc]
      · rw [keyChars, if_neg hc] at h
        exact absurd rfl h

-- Behind a sign the rest of the identifier is looked at in the same way.
theorem exists_signed {ctx : Context} {s s' : State} {crossed : Bool}
    (hskip : Parser.skipTrivia ctx s = .ok crossed s') (hne : keyChars s'.rest ≠ [])
    (h : (Key.ofChars (keyChars s'.rest)).IsSignedNumber) :
    ∃ n next, Parser.signed ctx s = .ok n next := by
  obtain ⟨c, tail, hcs, hc, hchars⟩ := exists_cons_of_keyChars hne
  rcases h with hnumber | ⟨hminus, hnumber⟩
  · have hdigit := (digits_of_isNumber hnumber).1 c (by rw [hchars]; exact List.mem_cons_self)
    obtain ⟨last, hok⟩ := exists_unsigned (skipTrivia_key hcs hc) hne hnumber
    refine ⟨decimalValue (keyChars s'.rest), last,
      bind_eq_ok_iff.mpr ⟨_, _, hskip, bind_eq_ok_iff.mpr ⟨_, _, rfl, ?_⟩⟩⟩
    rw [hcs] at hok ⊢
    rw [leadingSign?_digit hdigit]
    exact bind_eq_ok_iff.mpr ⟨_, _, hok, rfl⟩
  · rw [hchars] at hminus hnumber
    obtain rfl : c = '-' := CodePoint.scalar.inj (Option.some.inj hminus)
    have hnumber : (Key.ofChars (keyChars tail)).IsNumber := hnumber
    have htail : keyChars tail ≠ [] := by
      intro hnil
      rw [hnil] at hnumber
      exact hnumber.1 rfl
    obtain ⟨d, ds, hds, hd, hdchars⟩ := exists_cons_of_keyChars htail
    have hdigit := (digits_of_isNumber hnumber).1 d (by rw [hdchars]; exact List.mem_cons_self)
    have hadvance : (s'.advance 1).rest = tail := by
      change s'.rest.drop 1 = tail
      rw [hcs]
      rfl
    have hskipped : Parser.skipTrivia ctx (s'.advance 1) = .ok false (s'.advance 1) :=
      skipTrivia_key (hadvance.trans hds) hd
    rw [← hadvance] at htail hnumber
    obtain ⟨last, hok⟩ := exists_unsigned hskipped htail hnumber
    refine ⟨-decimalValue (keyChars (s'.advance 1).rest), last,
      bind_eq_ok_iff.mpr ⟨_, _, hskip, bind_eq_ok_iff.mpr ⟨_, _, rfl, ?_⟩⟩⟩
    rw [hcs, hds, Parser.leadingSign?, if_pos hdigit]
    exact bind_eq_ok_iff.mpr ⟨_, _, rfl, bind_eq_ok_iff.mpr ⟨_, _, hok, rfl⟩⟩

section

variable {ctx : Context} {s t next : State} {pos : Nat} {expected : String} {furthest : Furthest}
  {k : Key} (hkey : Parser.key ctx t = .ok k next) (hpos : t.pos = s.pos) (hrest : t.rest = s.rest)

include hkey hpos hrest

theorem not_isNumber_of_mismatch (h : Parser.unsigned ctx s = .mismatch pos expected furthest) :
    ¬ k.IsNumber := by
  intro hnumber
  obtain ⟨crossed, t', hskip, hne, rfl⟩ := key_eq_ok hkey
  obtain ⟨s', hskip, hsame⟩ := skipTrivia_congr hskip hpos hrest
  rw [← hsame] at hne hnumber
  obtain ⟨last, hok⟩ := exists_unsigned hskip hne hnumber
  cases hok.symm.trans h

theorem not_isSignedNumber_of_mismatch
    (h : Parser.signed ctx s = .mismatch pos expected furthest) : ¬ k.IsSignedNumber := by
  intro hnumber
  obtain ⟨crossed, t', hskip, hne, rfl⟩ := key_eq_ok hkey
  obtain ⟨s', hskip, hsame⟩ := skipTrivia_congr hskip hpos hrest
  rw [← hsame] at hne hnumber
  obtain ⟨n, last, hok⟩ := exists_signed hskip hne hnumber
  cases hok.symm.trans h

end

theorem Numeral.value?_wellFormed {n : Numeral} (hdigits : ∀ c ∈ n.whole, c.isDigit = true)
    {value : Literal} (h : n.value? = some value) : value.WellFormed := by
  rw [Numeral.value?] at h
  split at h
  · obtain ⟨v, hv, rfl⟩ := Option.map_eq_some_iff.mp h
    rw [Numeral.integer?] at hv
    split at hv
    · cases hv
    · rename_i hlength
      cases hv
      refine .int (isInteger_of_digits hdigits (Nat.not_lt.mp hlength) ?_)
      split <;> simp
  · cases h
    exact .float _

structure WellFormedMembers (members : List (Text × Literal)) : Prop where
  nodup : (members.map (·.1)).Nodup
  value : ∀ m ∈ members, m.2.WellFormed

end CardLore
