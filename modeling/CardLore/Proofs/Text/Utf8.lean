import CardLore.Text.Utf8

namespace CardLore.Text.Utf8

theorem toList_loop_eq (bytes : ByteArray) (i : Nat) (read : List UInt8) :
    ByteArray.toList.loop bytes i read = read.reverse ++ bytes.data.toList.drop i := by
  fun_induction ByteArray.toList.loop bytes i read with
  | case1 i read hi ih =>
      have hlength : i < bytes.data.toList.length := by simpa using hi
      rw [ih, List.drop_eq_getElem_cons hlength]
      simp [ByteArray.get!, hi]
  | case2 i read hi =>
      have hlength : bytes.data.toList.length ≤ i := by simpa using hi
      rw [List.drop_eq_nil_of_le hlength, List.append_nil]

theorem toList_toUTF8 (s : String) :
    s.toUTF8.toList = s.toList.flatMap String.utf8EncodeChar := by
  have hdata : s.toUTF8 = (s.toList.flatMap String.utf8EncodeChar).toByteArray := by
    rw [String.toUTF8_eq_toByteArray, ← String.utf8Encode_toList, List.utf8Encode]
  rw [hdata, ByteArray.toList, toList_loop_eq, List.toList_data_toByteArray]
  rfl

variable {pos : Nat} {p : Pending} {b : UInt8} {rest : List UInt8}

theorem decodeFrom_first (hb : ¬ b < 0x80) (hp : Pending.ofFirst? pos b = some p) :
    decodeFrom pos none (b :: rest) = decodeFrom (pos + 1) (some p) rest := by
  rw [decodeFrom]
  simp only [hb, hp, if_false]

theorem decodeFrom_next (hlow : p.low ≤ b) (hhigh : b ≤ p.high) (hmissing : p.missing ≠ 1) :
    decodeFrom pos (some p) (b :: rest) =
      decodeFrom (pos + 1)
        (some ⟨p.start, p.first, p.missing - 1, p.code * 64 + (b.toNat - 0x80), 0x80, 0xBF⟩)
        rest := by
  rw [decodeFrom]
  simp only [hlow, hhigh, hmissing, and_self, if_true, if_false]

theorem decodeFrom_last (hlow : p.low ≤ b) (hhigh : b ≤ p.high) (hmissing : p.missing = 1) :
    decodeFrom pos (some p) (b :: rest) =
      (Char.ofNat (p.code * 64 + (b.toNat - 0x80)) :: ·) <$> decodeFrom (pos + 1) none rest := by
  rw [decodeFrom]
  simp only [hlow, hhigh, hmissing, and_self, if_true]
  rfl

theorem ofFirst?_two (pos : Nat) (hlow : 0xC2 ≤ b.toNat) (hhigh : b.toNat < 0xE0) :
    Pending.ofFirst? pos b = some ⟨pos, b, 1, b.toNat - 0xC0, 0x80, 0xBF⟩ := by
  simp only [Pending.ofFirst?, UInt8.lt_iff_toNat_lt, UInt8.reduceToNat]
  rw [if_neg (by omega), if_pos (by omega)]

theorem exists_ofFirst?_three (pos : Nat) (hlow : 0xE0 ≤ b.toNat) (hhigh : b.toNat < 0xF0) :
    ∃ low high, Pending.ofFirst? pos b = some ⟨pos, b, 2, b.toNat - 0xE0, low, high⟩ ∧
      low = (if b.toNat = 0xE0 then 0xA0 else 0x80) ∧
      high = (if b.toNat = 0xED then 0x9F else 0xBF) := by
  simp only [Pending.ofFirst?, UInt8.lt_iff_toNat_lt, ← UInt8.toNat_inj, UInt8.reduceToNat]
  rw [if_neg (by omega), if_neg (by omega)]
  by_cases he0 : b.toNat = 0xE0
  · exact ⟨0xA0, 0xBF, by simp [he0]⟩
  · by_cases hed : b.toNat = 0xED
    · exact ⟨0x80, 0x9F, by simp [hed]⟩
    · exact ⟨0x80, 0xBF, by simp [he0, hed, hhigh]⟩

theorem exists_ofFirst?_four (pos : Nat) (hlow : 0xF0 ≤ b.toNat) (hhigh : b.toNat ≤ 0xF4) :
    ∃ low high, Pending.ofFirst? pos b = some ⟨pos, b, 3, b.toNat - 0xF0, low, high⟩ ∧
      low = (if b.toNat = 0xF0 then 0x90 else 0x80) ∧
      high = (if b.toNat = 0xF4 then 0x8F else 0xBF) := by
  simp only [Pending.ofFirst?, UInt8.lt_iff_toNat_lt, ← UInt8.toNat_inj, UInt8.reduceToNat]
  rw [if_neg (by omega), if_neg (by omega), if_neg (by omega), if_neg (by omega),
    if_neg (by omega)]
  by_cases hf0 : b.toNat = 0xF0
  · exact ⟨0x90, 0xBF, by simp [hf0]⟩
  · by_cases hf4 : b.toNat = 0xF4
    · exact ⟨0x80, 0x8F, by simp [hf4]⟩
    · have hless : b.toNat < 0xF4 := by omega
      exact ⟨0x80, 0xBF, by simp [hf0, hf4, hless]⟩

theorem toNat_byte {n : Nat} (h : n < 256) : (UInt8.ofNat n).toNat = n :=
  UInt8.toNat_ofNat_of_lt' h

-- Tail bytes carry six bits each. Only the first of them may have tighter bounds.
theorem decodeFrom_tails {first low high : UInt8} {start code n : Nat} {bits : List Nat}
    (hlow : low.toNat ≤ n + 128) (hhigh : n + 128 ≤ high.toNat)
    (hbits : ∀ m ∈ n :: bits, m < 64) :
    decodeFrom pos (some ⟨start, first, bits.length + 1, code, low, high⟩)
        ((n :: bits).map (fun m => UInt8.ofNat (m + 128)) ++ rest) =
      (Char.ofNat ((n :: bits).foldl (fun value m => value * 64 + m) code) :: ·) <$>
        decodeFrom (pos + (n :: bits).length) none rest := by
  induction bits generalizing n pos code low high with
  | nil =>
      have hn := hbits n List.mem_cons_self
      have hbyte := toNat_byte (n := n + 128) (by omega)
      refine (decodeFrom_last ?_ ?_ rfl).trans ?_
      · rwa [UInt8.le_iff_toNat_le, hbyte]
      · rwa [UInt8.le_iff_toNat_le, hbyte]
      · rw [hbyte, Nat.add_sub_cancel]
        rfl
  | cons m bits ih =>
      obtain ⟨hn, hmore⟩ := List.forall_mem_cons.mp hbits
      have hm := hmore m List.mem_cons_self
      have hbyte := toNat_byte (n := n + 128) (by omega)
      refine (decodeFrom_next ?_ ?_ (by simp)).trans ?_
      · rwa [UInt8.le_iff_toNat_le, hbyte]
      · rwa [UInt8.le_iff_toNat_le, hbyte]
      · rw [hbyte, Nat.add_sub_cancel]
        have hhigh' : m + 128 ≤ (0xBF : UInt8).toNat := by
          change m + 128 ≤ 191
          omega
        have hpos : pos + 1 + (m :: bits).length = pos + (n :: m :: bits).length := by
          simp only [List.length_cons]
          omega
        refine (ih (Nat.le_add_left 128 m) hhigh' hmore).trans ?_
        rw [hpos, List.foldl_cons (a := n), Nat.add_sub_cancel]

-- A first byte with the tail bytes that it asks for is a character.
theorem decodeFrom_sequence {low high : UInt8} {code n : Nat} (bits : List Nat)
    (rest : List UInt8) (hb : 0x80 ≤ b.toNat)
    (hfirst : Pending.ofFirst? pos b = some ⟨pos, b, bits.length + 1, code, low, high⟩)
    (hlow : low.toNat ≤ n + 128) (hhigh : n + 128 ≤ high.toNat) (hbits : ∀ m ∈ n :: bits, m < 64) :
    decodeFrom pos none (b :: ((n :: bits).map (fun m => UInt8.ofNat (m + 128)) ++ rest)) =
      (Char.ofNat ((n :: bits).foldl (fun value m => value * 64 + m) code) :: ·) <$>
        decodeFrom (pos + (bits.length + 2)) none rest := by
  have hlarge : ¬ b < 0x80 := by
    rw [UInt8.lt_iff_toNat_lt]
    exact Nat.not_lt.mpr hb
  rw [decodeFrom_first hlarge hfirst, decodeFrom_tails hlow hhigh hbits, List.length_cons,
    Nat.add_assoc, Nat.add_comm 1]

theorem decodeFrom_utf8EncodeChar (c : Char) :
    decodeFrom pos none (String.utf8EncodeChar c ++ rest) =
      (c :: ·) <$> decodeFrom (pos + (String.utf8EncodeChar c).length) none rest := by
  have hc : Char.ofNat c.val.toNat = c := Char.ofNat_toNat c
  have hvalid : c.val.toNat < 0xD800 ∨ 0xDFFF < c.val.toNat ∧ c.val.toNat < 0x110000 := c.valid
  rw [String.utf8EncodeChar]
  generalize c.val.toNat = v at hc hvalid
  subst hc
  split
  next hone =>
    have hbyte := toNat_byte (n := v) (by omega)
    have hb : UInt8.ofNat v < 0x80 := by
      rw [UInt8.lt_iff_toNat_lt, hbyte]
      exact Nat.lt_succ_of_le hone
    rw [List.singleton_append, decodeFrom]
    simp only [hb, if_true, hbyte]
    rfl
  split
  next hone htwo =>
    have hbyte : (UInt8.ofNat (v / 64 % 32 + 192)).toNat = v / 64 + 192 := by
      rw [toNat_byte (by omega)]
      omega
    have hfirst := ofFirst?_two pos (b := UInt8.ofNat (v / 64 % 32 + 192)) (by omega)
      (by omega)
    have hvalue : v / 64 * 64 + v % 64 = v := by omega
    rw [hbyte, Nat.add_sub_cancel] at hfirst
    have hchar := decodeFrom_sequence (n := v % 64) [] rest (by omega) hfirst
      (Nat.le_add_left 128 _) (by change _ ≤ 191; omega) (by simp; omega)
    rwa [List.foldl_cons, List.foldl_nil, hvalue] at hchar
  split
  next hone htwo hthree =>
    have hbyte : (UInt8.ofNat (v / 4096 % 16 + 224)).toNat = v / 4096 + 224 := by
      rw [toNat_byte (by omega)]
      omega
    obtain ⟨low, high, hfirst, hlow, hhigh⟩ := exists_ofFirst?_three pos
      (b := UInt8.ofNat (v / 4096 % 16 + 224)) (by omega) (by omega)
    have hvalue : (v / 4096 * 64 + v / 64 % 64) * 64 + v % 64 = v := by omega
    rw [hbyte, Nat.add_sub_cancel] at hfirst
    rw [hbyte] at hlow hhigh
    have hchar := decodeFrom_sequence (n := v / 64 % 64) [v % 64] rest
      (by omega) hfirst (by subst hlow; split <;> simp; omega)
      (by subst hhigh; split <;> simp <;> omega) (by simp; omega)
    rwa [List.foldl_cons, List.foldl_cons, List.foldl_nil, hvalue] at hchar
  next hone htwo hthree =>
    have hbyte : (UInt8.ofNat (v / 262144 % 8 + 240)).toNat = v / 262144 + 240 := by
      rw [toNat_byte (by omega)]
      omega
    obtain ⟨low, high, hfirst, hlow, hhigh⟩ := exists_ofFirst?_four pos
      (b := UInt8.ofNat (v / 262144 % 8 + 240)) (by omega) (by omega)
    have hvalue : ((v / 262144 * 64 + v / 4096 % 64) * 64 + v / 64 % 64) * 64 + v % 64 = v := by
      omega
    rw [hbyte, Nat.add_sub_cancel] at hfirst
    rw [hbyte] at hlow hhigh
    have hchar := decodeFrom_sequence (n := v / 4096 % 64)
      [v / 64 % 64, v % 64] rest (by omega) hfirst (by subst hlow; split <;> simp; omega)
      (by subst hhigh; split <;> simp <;> omega) (by simp; omega)
    rwa [List.foldl_cons, List.foldl_cons, List.foldl_cons, List.foldl_nil, hvalue] at hchar

theorem decodeFrom_flatMap (cs : List Char) :
    decodeFrom pos none (cs.flatMap String.utf8EncodeChar) = .ok cs := by
  induction cs generalizing pos with
  | nil => rfl
  | cons c cs ih =>
      rw [List.flatMap_cons, decodeFrom_utf8EncodeChar, ih]
      rfl

theorem decode_toUTF8 (s : String) : decode s.toUTF8.toList = .ok s.toList := by
  rw [toList_toUTF8]
  exact decodeFrom_flatMap s.toList

end CardLore.Text.Utf8
