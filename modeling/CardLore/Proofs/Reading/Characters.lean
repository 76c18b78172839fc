import CardLore.Proofs.Reading.Basic
import CardLore.Proofs.Text.Lower
import Mathlib

namespace CardLore

theorem Separated.continuesKey_eq {cs : List Char} (h : Separated cs) : continuesKey cs = false := by
  cases cs with
  | nil => rfl
  | cons c cs => rcases h with rfl | rfl <;> rfl

theorem toNat_lt_of_isKeyChar {c : Char} (h : isKeyChar c = true) : c.toNat < 128 := by
  simp only [isKeyChar, Char.isAlphanum, Char.isAlpha, Char.isUpper, Char.isLower, Char.isDigit,
    Bool.or_eq_true, Bool.and_eq_true, decide_eq_true_eq, beq_iff_eq, ge_iff_le,
    UInt32.le_iff_toNat_le] at h
  rcases h with (((((h | h) | h) | rfl) | rfl) | rfl) | rfl
  · exact Nat.lt_of_le_of_lt h.2 (by decide)
  · exact Nat.lt_of_le_of_lt h.2 (by decide)
  · exact Nat.lt_of_le_of_lt h.2 (by decide)
  all_goals decide

theorem isKeyChar_of_isAlpha {c : Char} (h : c.isAlpha = true) : isKeyChar c = true := by
  simp [isKeyChar, Char.isAlphanum, h]

theorem isKeyChar_of_isDigit {c : Char} (h : c.isDigit = true) : isKeyChar c = true := by
  simp [isKeyChar, Char.isAlphanum, h]

-- All letters of the words are lower-case ones.
theorem isLower_of_mem_keyword {w : String} (hw : w ∈ keywords) {c : Char} (hc : c ∈ w.toList) :
    c.isLower = true := by
  have hall : (keywords.all fun w => w.toList.all Char.isLower) = true := by decide
  exact List.all_eq_true.mp (List.all_eq_true.mp hall w hw) c hc

-- A text is a word in some letter case, followed by no key character.
def MatchesWord (w : String) (cs : List Char) : Prop :=
  Text.lower (Text.ofChars (cs.take w.length)) = Text.ofString w ∧
    !continuesKey (cs.drop w.length)

instance (w : String) (cs : List Char) : Decidable (MatchesWord w cs) :=
  inferInstanceAs (Decidable (_ ∧ _))

-- Key characters up to a gap are a word iff they are its letters.
theorem matchesWord_append_iff {w : String} (hw : w ∈ keywords) {text rest : List Char}
    (htext : ∀ c ∈ text, isKeyChar c = true) (hrest : Separated rest) :
    MatchesWord w (text ++ rest) ↔ text.map Char.toLower = w.toList := by
  have hascii : ∀ c ∈ text, c.toNat < 128 := fun c hc => toNat_lt_of_isKeyChar (htext c hc)
  constructor
  · rintro ⟨hlower, hstop⟩
    rcases Nat.lt_trichotomy w.length text.length with hlt | heq | hgt
    · -- the word ends inside of the text, so a key character follows it
      rw [List.drop_append_of_le_length (Nat.le_of_lt hlt)] at hstop
      obtain ⟨c, tail, htail⟩ := List.exists_cons_of_ne_nil
        (List.ne_nil_of_length_pos (by rw [List.length_drop]; omega) : text.drop w.length ≠ [])
      have hc : isKeyChar c = true :=
        htext c (List.mem_of_mem_drop (htail ▸ List.mem_cons_self))
      simp [htail, continuesKey, hc] at hstop
    · rw [heq, List.take_left, lower_ofChars hascii] at hlower
      exact ofChars_inj hlower
    · -- the word is longer, so it would hold the gap
      rw [List.take_append, List.take_of_length_le (Nat.le_of_lt hgt)] at hlower
      cases rest with
      | nil =>
          rw [List.take_nil, List.append_nil, lower_ofChars hascii] at hlower
          exact ofChars_inj hlower
      | cons c rest =>
          obtain ⟨n, hn⟩ := Nat.exists_eq_succ_of_ne_zero (Nat.sub_ne_zero_of_lt hgt)
          obtain ⟨before, heq⟩ := lowerFrom_append [] (text ++ [c])
            (by
              intro d hd
              rcases List.mem_append.mp hd with hd | hd
              · exact hascii d hd
              · obtain rfl := List.mem_singleton.mp hd
                rcases hrest with rfl | rfl <;> decide)
            (Text.ofChars (rest.take n))
          rw [hn, List.take_succ_cons] at hlower
          have hsplit : Text.ofChars (text ++ c :: rest.take n) =
              Text.ofChars (text ++ [c]) ++ Text.ofChars (rest.take n) := by
            simp [Text.ofChars]
          rw [hsplit, Text.lower, heq] at hlower
          have hmem : CodePoint.scalar c.toLower ∈ Text.ofString w := by
            rw [← hlower]
            simp [Text.ofChars]
          obtain ⟨d, hd, hdc⟩ := List.mem_map.mp hmem
          have hislower := isLower_of_mem_keyword hw hd
          rw [CodePoint.scalar.inj hdc] at hislower
          rcases hrest with rfl | rfl <;> exact absurd hislower (by decide)
  · intro heq
    have hlen : w.length = text.length := by
      rw [← String.length_toList, ← heq, List.length_map]
    refine ⟨?_, ?_⟩
    · rw [hlen, List.take_left, lower_ofChars hascii, heq]
      rfl
    · rw [hlen, List.drop_left, hrest.continuesKey_eq]
      rfl

theorem not_matchesWord_nil {w : String} (hw : w ∈ keywords) : ¬ MatchesWord w [] := by
  have hall : ∀ w ∈ keywords, ¬ MatchesWord w [] := by decide
  exact hall w hw

-- A word starts with a letter.
theorem not_matchesWord_cons {w : String} (hw : w ∈ keywords) {c : Char} (hc : c.toNat < 128)
    (halpha : c.isAlpha = false) (cs : List Char) : ¬ MatchesWord w (c :: cs) := by
  rintro ⟨hlower, _⟩
  have hne : ∀ w ∈ keywords, w.toList ≠ [] := by decide
  obtain ⟨d, ds, hd⟩ := List.exists_cons_of_ne_nil (hne w hw)
  have hlen : w.length = ds.length + 1 := by
    rw [← String.length_toList, hd, List.length_cons]
  obtain ⟨before, heq⟩ := lowerFrom_append [] [c] (by simpa using hc)
    (Text.ofChars (cs.take ds.length))
  rw [hlen, List.take_succ_cons] at hlower
  have hfirst : Text.lower (Text.ofChars (c :: cs.take ds.length)) =
      .scalar c.toLower :: Text.lowerFrom before (Text.ofChars (cs.take ds.length)) := heq
  rw [hfirst, Text.ofString, hd] at hlower
  obtain rfl : c.toLower = d := CodePoint.scalar.inj (List.cons.inj hlower).1
  have hislower := isLower_of_mem_keyword hw (hd ▸ List.mem_cons_self : c.toLower ∈ w.toList)
  rw [← Char.isLower_toLower_eq_isAlpha, hislower] at halpha
  cases halpha

-- Words, keys and numbers are made of key characters.
theorem isKeyChar_of_spelled_word {w : String} {text : List Char}
    (h : (Lexeme.word w).Spelled text) : ∀ c ∈ text, isKeyChar c = true := by
  intro c hc
  have hlower := isLower_of_mem_keyword h.1 (h.2 ▸ List.mem_map_of_mem hc : c.toLower ∈ w.toList)
  rw [Char.isLower_toLower_eq_isAlpha] at hlower
  exact isKeyChar_of_isAlpha hlower

theorem isKeyChar_of_spelled_key {k : Key} {text : List Char} (h : (Lexeme.key k).Spelled text) :
    ∀ c ∈ text, isKeyChar c = true := by
  obtain ⟨⟨_, hpoints⟩, rfl⟩ := h
  intro c hc
  exact hpoints (.scalar c) (List.mem_map_of_mem hc)

theorem isKeyChar_of_spelled_number {n : Int} {text : List Char}
    (h : (Lexeme.number n).Spelled text) : ∀ c ∈ text, isKeyChar c = true := by
  intro c hc
  rcases h with ⟨_, h⟩ | ⟨_, digits, rfl, h⟩
  · exact isKeyChar_of_isDigit (h.digit c hc)
  · rcases List.mem_cons.mp hc with rfl | hc
    · rfl
    · exact isKeyChar_of_isDigit (h.digit c hc)

-- A fact about the first character of a symbol and those behind it, decided over all symbols.
theorem exists_head_symbol {p : Char → List Char → Bool}
    (hp : (symbols.all fun s =>
      match s.toList with
      | [] => false
      | c :: tail => p c tail) = true) {s : String} (hs : s ∈ symbols) :
    ∃ c tail, s.toList = c :: tail ∧ p c tail = true := by
  have hhead := List.all_eq_true.mp hp s hs
  cases hchars : s.toList with
  | nil => simp [hchars] at hhead
  | cons c tail =>
      simp only [hchars] at hhead
      exact ⟨c, tail, rfl, hhead⟩

-- The first character of a lexeme that is neither a word nor a key.
theorem not_isAlpha_head {l : Lexeme} {text : List Char} (h : l.Spelled text)
    (hword : ∀ w, l ≠ .word w) (hkey : ∀ k, l ≠ .key k) :
    ∃ c tail, text = c :: tail ∧ c.toNat < 128 ∧ c.isAlpha = false := by
  have hdigits : ∀ {digits n}, IsDecimal digits n → ∃ c tail, digits = c :: tail ∧
      c.toNat < 128 ∧ c.isAlpha = false := by
    intro digits n hd
    obtain ⟨c, tail, rfl⟩ := List.exists_cons_of_ne_nil hd.nonempty
    have hc := hd.digit c List.mem_cons_self
    refine ⟨c, tail, rfl, toNat_lt_of_isKeyChar (isKeyChar_of_isDigit hc), ?_⟩
    simp only [Char.isDigit, Char.isAlpha, Char.isUpper, Char.isLower, Bool.and_eq_true,
      decide_eq_true_eq, ge_iff_le, UInt32.le_iff_toNat_le, Bool.or_eq_false_iff,
      decide_eq_false_iff_not, Bool.and_eq_false_iff] at hc ⊢
    change 48 ≤ c.val.toNat ∧ c.val.toNat ≤ 57 at hc
    change ¬ (65 ≤ c.val.toNat ∧ c.val.toNat ≤ 90) ∧
      (¬ 97 ≤ c.val.toNat ∨ ¬ c.val.toNat ≤ 122)
    omega
  cases l with
  | word w => exact absurd rfl (hword w)
  | key k => exact absurd rfl (hkey k)
  | symbol s =>
      obtain ⟨c, tail, htail, hclass⟩ := exists_head_symbol
        (p := fun c _ => c.toNat < 128 ∧ c.isAlpha = false) (by decide) h.1
      exact ⟨c, tail, h.2.trans htail, of_decide_eq_true hclass⟩
  | text t => exact ⟨'"', _, h, by decide, rfl⟩
  | number n =>
      rcases h with ⟨_, h⟩ | ⟨_, digits, rfl, _⟩
      · exact hdigits h
      · exact ⟨'-', digits, rfl, by decide, rfl⟩
  | percent p =>
      obtain ⟨digits, rfl, hd⟩ := h
      obtain ⟨c, tail, rfl, hclass⟩ := hdigits hd
      exact ⟨c, tail ++ ['%'], rfl, hclass⟩
  | lineEnd => cases h

theorem symbol_class {s : String} (hs : s ∈ symbols) :
    ' ' ∉ s.toList ∧ '\n' ∉ s.toList ∧ (∃ c ∈ s.toList, isKeyChar c = false) ∧
      ∀ c ∈ s.toList.head?, c ≠ '"' ∧ c.isDigit = false := by
  have hall : ∀ s ∈ symbols, ' ' ∉ s.toList ∧ '\n' ∉ s.toList ∧
      (s.toList.any fun c => isKeyChar c = false) = true := by
    decide
  obtain ⟨hblank, hline, hany⟩ := hall s hs
  obtain ⟨c, hc, hkey⟩ := List.any_eq_true.mp hany
  obtain ⟨d, tail, htail, hclass⟩ := exists_head_symbol
    (p := fun c _ => c ≠ '"' ∧ c.isDigit = false) (by decide) hs
  refine ⟨hblank, hline, ⟨c, hc, of_decide_eq_true hkey⟩, fun c hc => ?_⟩
  rw [htail, List.head?_cons] at hc
  cases hc
  exact of_decide_eq_true hclass

-- A symbol does not reach over the gap behind a lexeme.
theorem prefix_of_prefix_append {t text rest : List Char} (hblank : ' ' ∉ t) (hline : '\n' ∉ t)
    (hrest : Separated rest) (h : t <+: text ++ rest) : t <+: text := by
  rcases List.prefix_or_prefix_of_prefix h (List.prefix_append text rest) with hle | ⟨u, rfl⟩
  · exact hle
  · rw [List.prefix_append_right_inj] at h
    cases u with
    | nil => exact ⟨[], by simp⟩
    | cons c u =>
        obtain ⟨tail, rfl⟩ := h
        rcases hrest with rfl | rfl
        · exact absurd (by simp) hblank
        · exact absurd (by simp) hline

-- Of all lexemes, only symbols start with a symbol.
theorem exists_symbol_of_prefix {t : String} (ht : t ∈ symbols) {l : Lexeme} {text rest : List Char}
    (hl : l.Spelled text) (hrest : Separated rest) (h : t.toList <+: text ++ rest) :
    ∃ s, l = .symbol s ∧ t.toList <+: s.toList := by
  obtain ⟨hblank, hline, ⟨c, hc, hckey⟩, hhead⟩ := symbol_class ht
  have hfront := prefix_of_prefix_append hblank hline hrest h
  have hnotkey : ¬ ∀ c ∈ text, isKeyChar c = true := by
    intro hall
    rw [hall c (hfront.subset hc)] at hckey
    cases hckey
  obtain ⟨d, ds, htd⟩ := List.exists_cons_of_ne_nil (List.ne_nil_of_mem hc)
  have hfirst : text.head? = some d := by
    obtain ⟨u, rfl⟩ := hfront
    rw [htd]
    rfl
  have hd := hhead d (by rw [htd]; rfl)
  cases l with
  | word w => exact absurd (isKeyChar_of_spelled_word hl) hnotkey
  | key k => exact absurd (isKeyChar_of_spelled_key hl) hnotkey
  | number n => exact absurd (isKeyChar_of_spelled_number hl) hnotkey
  | symbol s => exact ⟨s, rfl, hl.2 ▸ hfront⟩
  | text t =>
      rw [hl] at hfirst
      exact absurd (Option.some.inj hfirst).symm hd.1
  | percent p =>
      obtain ⟨digits, rfl, hdec⟩ := hl
      obtain ⟨e, es, rfl⟩ := List.exists_cons_of_ne_nil hdec.nonempty
      obtain rfl : e = d := Option.some.inj hfirst
      rw [hdec.digit e List.mem_cons_self] at hd
      cases hd.2
  | lineEnd => cases hl

-- No arrow starts inside of an identifier or behind it.
theorem startsArrow_append {c : Char} {text rest : List Char}
    (htext : ∀ c ∈ text, isKeyChar c = true) (hrest : Separated rest) :
    startsArrow (c :: (text ++ rest)) = false := by
  have hnext : ∀ d ∈ (text ++ rest).head?, d ≠ '>' := by
    intro d hd
    cases text with
    | nil =>
        cases rest with
        | nil => cases hd
        | cons e rest =>
            obtain rfl : e = d := Option.some.inj hd
            rcases hrest with rfl | rfl <;> decide
    | cons e text =>
        obtain rfl : e = d := Option.some.inj hd
        rintro rfl
        exact absurd (htext '>' List.mem_cons_self) (by decide)
  unfold startsArrow
  split
  next heq =>
    obtain ⟨_, htail⟩ := List.cons.inj heq
    exact absurd rfl (hnext '>' (by rw [htail]; rfl))
  next => rfl

theorem keyChars_append {text rest : List Char} (htext : ∀ c ∈ text, isKeyChar c = true)
    (hrest : Separated rest) : keyChars (text ++ rest) = text := by
  induction text with
  | nil =>
      cases rest with
      | nil => rfl
      | cons c rest => rcases hrest with rfl | rfl <;> rfl
  | cons c text ih =>
      obtain ⟨hc, htext⟩ := List.forall_mem_cons.mp htext
      rw [List.cons_append, keyChars, hc, startsArrow_append htext hrest, ih htext]
      rfl

-- Symbols and strings are no identifiers.
theorem keyChars_symbol {s : String} (hs : s ∈ symbols) (rest : List Char) :
    keyChars (s.toList ++ rest) = [] := by
  obtain ⟨c, tail, htail, hclass⟩ := exists_head_symbol
    (p := fun c tail => c = '-' ∧ tail = ['>'] ∨ isKeyChar c = false) (by decide) hs
  rw [htail]
  rcases of_decide_eq_true hclass with ⟨rfl, rfl⟩ | hkey
  · rfl
  · rw [List.cons_append, keyChars, hkey]
    rfl

theorem takeWhile_digits {digits after : List Char} (hd : ∀ c ∈ digits, c.isDigit = true)
    (hafter : continuesKey after = false) :
    (digits ++ after).takeWhile Char.isDigit = digits ∧
      (digits ++ after).dropWhile Char.isDigit = after := by
  have hnil : after.takeWhile Char.isDigit = [] ∧ after.dropWhile Char.isDigit = after := by
    cases after with
    | nil => exact ⟨rfl, rfl⟩
    | cons c after =>
        cases hc : c.isDigit with
        | false => simp [hc]
        | true => simp [continuesKey, isKeyChar_of_isDigit hc] at hafter
  rw [List.takeWhile_append_of_pos hd, List.dropWhile_append_of_pos hd, hnil.1, hnil.2,
    List.append_nil]
  exact ⟨rfl, rfl⟩

theorem isNumber_ofChars {text : List Char} (hne : text ≠ [])
    (hdigits : ∀ c ∈ text, c.isDigit = true) (hlen : text.length ≤ maxIntegerDigits) :
    (Key.ofChars text).IsNumber := by
  refine ⟨by simpa [Key.ofChars, Text.ofChars] using hne, ?_, ?_⟩
  · intro p hp
    obtain ⟨c, hc, rfl⟩ := List.mem_map.mp hp
    exact hdigits c hc
  · simpa [Key.ofChars, Text.ofChars] using hlen

-- What stops an identifier from being read as a number: it has no digit first, or goes on with a
-- character that is none, or has too many of them.
theorem not_digits_of_not_isNumber {text rest : List Char} (hne : text ≠ [])
    (htext : ∀ c ∈ text, isKeyChar c = true) (hrest : Separated rest)
    (h : ¬ (Key.ofChars text).IsNumber) :
    ((text ++ rest).takeWhile Char.isDigit).isEmpty ∨
        (continuesKey ((text ++ rest).dropWhile Char.isDigit) ∧
          !startsArrow ((text ++ rest).dropWhile Char.isDigit)) ∨
      maxIntegerDigits < ((text ++ rest).takeWhile Char.isDigit).length := by
  by_cases hall : ∀ c ∈ text, c.isDigit = true
  · right; right
    rw [(takeWhile_digits hall hrest.continuesKey_eq).1]
    exact Nat.lt_of_not_le fun hle => h (isNumber_ofChars hne hall hle)
  · right; left
    have hdrop : ∃ c tail, text.dropWhile Char.isDigit = c :: tail := by
      refine List.exists_cons_of_ne_nil fun hnil => hall fun c hc => ?_
      exact List.dropWhile_eq_nil_iff.mp hnil c hc
    obtain ⟨c, tail, htail⟩ := hdrop
    have hkeys : ∀ d ∈ c :: tail, isKeyChar d = true :=
      fun d hd => htext d ((List.dropWhile_sublist _).subset (htail ▸ hd))
    obtain ⟨hc, htailkeys⟩ := List.forall_mem_cons.mp hkeys
    have hafter : (text ++ rest).dropWhile Char.isDigit = c :: (tail ++ rest) := by
      rw [List.dropWhile_append, htail]
      rfl
    rw [hafter]
    exact ⟨hc, by rw [startsArrow_append htailkeys hrest]; rfl⟩

theorem numberedPoint?_digits (half : Fin 0x800) :
    let n := 0xD800 + half.val
    numberedPoint? (n / 4096).digitChar (n / 256 % 16).digitChar (n / 16 % 16).digitChar
      (n % 16).digitChar = some (.surrogate half) := by
  intro n
  have hhex : ∀ k : Fin 16, hexValue? (Nat.digitChar k) = some k.val := by decide
  have hn : n / 4096 < 16 := by omega
  have hvalue : ((n / 4096 * 16 + n / 256 % 16) * 16 + n / 16 % 16) * 16 + n % 16 = n := by omega
  have hpoint : CodePoint.ofNat n = .surrogate half := by
    have hrange : 0xD800 ≤ n ∧ n < 0xE000 := by omega
    rw [CodePoint.ofNat, dif_pos hrange]
    refine congrArg _ (Fin.ext ?_)
    change n - 0xD800 = half.val
    omega
  rw [numberedPoint?, hhex ⟨n / 4096, hn⟩, hhex ⟨n / 256 % 16, by omega⟩,
    hhex ⟨n / 16 % 16, by omega⟩, hhex ⟨n % 16, by omega⟩]
  simp only [Option.bind_eq_bind, Option.bind_some, hvalue, hpoint]
  rfl

-- The inside of a string is read back.
theorem scanString_write (t : Text) (rest : List Char) :
    scanString (t.flatMap CodePoint.write ++ '"' :: rest) =
      .closed t ((t.flatMap CodePoint.write).length + 1) := by
  induction t with
  | nil => rfl
  | cons p t ih =>
      have hcons : ∀ n, (StringScan.closed t ((t.flatMap CodePoint.write).length + 1)).cons p n =
          .closed (p :: t) (n + (t.flatMap CodePoint.write).length + 1) := fun n => by
        rw [StringScan.cons, Nat.add_assoc]
      rw [List.flatMap_cons, List.append_assoc, List.length_append]
      cases p with
      | surrogate half =>
          change scanString ('\\' :: 'u' :: _ :: _ :: _ :: _ ::
            (t.flatMap CodePoint.write ++ '"' :: rest)) = _
          rw [scanString, numberedPoint?_digits half, ih]
          exact hcons 6
      | scalar c =>
          by_cases hesc : c = '"' ∨ c = '\\'
          · rw [CodePoint.write, if_pos hesc]
            rcases hesc with rfl | rfl
            · change scanString ('\\' :: '"' :: (t.flatMap CodePoint.write ++ '"' :: rest)) = _
              rw [scanString, ih]
              · exact hcons 2
              · nofun
            · change scanString ('\\' :: '\\' :: (t.flatMap CodePoint.write ++ '"' :: rest)) = _
              rw [scanString, ih]
              · exact hcons 2
              · nofun
          · rw [CodePoint.write, if_neg hesc]
            rw [not_or] at hesc
            change scanString (c :: (t.flatMap CodePoint.write ++ '"' :: rest)) = _
            rw [scanString, ih]
            · exact hcons 1
            all_goals simp_all

end CardLore
