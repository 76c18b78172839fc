import CardLore.Proofs.Text.Lower
import Mathlib.Data.List.Forall2

namespace CardLore

-- The character is the given letter in lower case.
def Lowers (c d : Char) : Prop :=
  (c.toNat < 128 ∧ c.toLower = d) ∨ (c = '\u212A' ∧ d = 'k')

theorem toNat_lt_of_isLower {c : Char} (h : c.isLower = true) : c.toNat < 128 := by
  have hle : c.val ≤ 'z'.val := of_decide_eq_true (Bool.and_eq_true_iff.mp h).2
  exact Nat.lt_of_le_of_lt (UInt32.le_iff_toNat_le.mp hle) (by decide)

theorem not_isLower_ofNat {n : Nat} (h : 128 ≤ n) : (Char.ofNat n).isLower = false := by
  rw [Bool.eq_false_iff]
  intro hlower
  by_cases hvalid : n.isValidChar
  · have hlt := toNat_lt_of_isLower hlower
    rw [Char.ofNat, dif_pos hvalid] at hlt
    exact absurd hlt (Nat.not_lt_of_le h)
  · rw [Char.ofNat, dif_neg hvalid] at hlower
    cases hlower

-- Of the runs beyond the plain characters, one leads back to them.
theorem find?_caseRuns_of_le {n : Nat} {run : Text.CaseRun} (hn : 128 ≤ n)
    (h : Text.caseRuns.find? (·.contains n) = some run) :
    (n = 0x212A ∧ run.distance = -8383) ∨ 128 ≤ (n + run.distance).toNat := by
  have hall : ∀ run ∈ Text.caseRuns, run.last < 128 ∨
      (run.first = 0x212A ∧ run.last = 0x212A ∧ run.distance = -8383) ∨
      128 ≤ run.first + run.distance := by
    decide +kernel
  have hcontains := List.find?_some h
  simp only [Text.CaseRun.contains, Bool.and_eq_true, decide_eq_true_eq] at hcontains
  rcases hall run (List.mem_of_find?_eq_some h) with hlast | ⟨hfirst, hlast, hdistance⟩ | hfirst
  · omega
  · exact .inl ⟨by omega, hdistance⟩
  · exact .inr (by omega)

theorem exists_lowers {c : Char} (h : ∀ d ∈ Text.lowerChar c, d.isLower = true) :
    ∃ d, Text.lowerChar c = [d] ∧ Lowers c d := by
  by_cases hc : c.toNat < 128
  · exact ⟨c.toLower, lowerChar_of_lt hc, .inl ⟨hc, rfl⟩⟩
  rw [Text.lowerChar] at h ⊢
  split
  next hdot =>
    rw [if_pos hdot] at h
    exact absurd (h _ (List.mem_cons_of_mem _ List.mem_cons_self)) (by decide)
  next hdot =>
    rw [if_neg hdot] at h
    split
    next run hrun =>
      rw [hrun] at h
      refine ⟨_, rfl, ?_⟩
      rcases find?_caseRuns_of_le (Nat.le_of_not_lt hc) hrun with ⟨hkelvin, hdistance⟩ | hbeyond
      · rw [hkelvin, hdistance]
        refine .inr ⟨?_, rfl⟩
        rw [← Char.ofNat_toNat c, hkelvin]
      · have hlower := h _ List.mem_cons_self
        rw [not_isLower_ofNat hbeyond] at hlower
        cases hlower
    next hnone =>
      rw [hnone] at h
      exact absurd (toNat_lt_of_isLower (h c List.mem_cons_self)) hc

-- A text that is a plain word in lower case spells it letter by letter.
theorem lowers_of_lowerFrom (before : Text) {cs ds : List Char} (hds : ∀ d ∈ ds, d.isLower = true)
    (h : Text.lowerFrom before (Text.ofChars cs) = Text.ofChars ds) :
    List.Forall₂ Lowers cs ds := by
  induction cs generalizing before ds with
  | nil =>
      cases ds with
      | nil => exact .nil
      | cons d ds => cases h
  | cons c cs ih =>
      change Text.lowerFrom before (.scalar c :: Text.ofChars cs) = _ at h
      rw [Text.lowerFrom] at h
      obtain ⟨front, rest, rfl, hfront, hrest⟩ := List.map_eq_append_iff.mp h.symm
      obtain ⟨hlower, hds⟩ := List.forall_mem_append.mp hds
      have hsame := ofChars_inj hfront
      rw [hsame] at hlower
      have hsigma : c ≠ 'Σ' := by
        rintro rfl
        rw [if_pos rfl] at hlower
        split at hlower <;> exact absurd (hlower _ List.mem_cons_self) (by decide)
      rw [if_neg hsigma] at hlower hsame
      obtain ⟨d, hd, hlowers⟩ := exists_lowers hlower
      rw [hsame, hd]
      exact .cons hlowers (ih _ hds hrest.symm)

end CardLore
