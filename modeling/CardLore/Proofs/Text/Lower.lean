import CardLore.Text.Lower

namespace CardLore

-- Of all runs of letters, only the first one lies among the plain characters.
theorem find?_caseRuns_of_lt {n : Nat} (h : n < 128) :
    Text.caseRuns.find? (·.contains n) =
      if 0x41 ≤ n ∧ n ≤ 0x5A then some ⟨0x41, 0x5A, 1, 32⟩ else none := by
  have hbeyond : ∀ run ∈ Text.caseRuns.tail, 128 ≤ run.first := by decide +kernel
  have hothers : Text.caseRuns.tail.find? (·.contains n) = none := by
    rw [List.find?_eq_none]
    intro run hrun hcontains
    simp only [Text.CaseRun.contains, Bool.and_eq_true, decide_eq_true_eq] at hcontains
    have := hbeyond run hrun
    omega
  change List.find? _ (⟨0x41, 0x5A, 1, 32⟩ :: Text.caseRuns.tail) = _
  rw [List.find?_cons, hothers]
  by_cases hn : 0x41 ≤ n ∧ n ≤ 0x5A
  · simp [Text.CaseRun.contains, hn, Nat.mod_one]
  · rw [if_neg hn]
    have hfirst : (⟨0x41, 0x5A, 1, 32⟩ : Text.CaseRun).contains n = false := by
      simp only [Text.CaseRun.contains, Bool.and_eq_false_iff, decide_eq_false_iff_not]
      omega
    rw [hfirst]

theorem lowerChar_of_lt {c : Char} (h : c.toNat < 128) : Text.lowerChar c = [c.toLower] := by
  have hall : ∀ n : Fin 128, (if 0x41 ≤ n.val ∧ n.val ≤ 0x5A then Char.ofNat (n.val + 32)
      else Char.ofNat n.val) = (Char.ofNat n.val).toLower := by
    decide
  have hdot : c ≠ 'İ' := by
    rintro rfl
    exact absurd h (by decide)
  have hc := hall ⟨c.toNat, h⟩
  rw [Char.ofNat_toNat] at hc
  rw [Text.lowerChar, if_neg hdot, find?_caseRuns_of_lt h, ← hc]
  by_cases hupper : 0x41 ≤ c.toNat ∧ c.toNat ≤ 0x5A
  · rw [if_pos hupper, if_pos hupper]
    rfl
  · rw [if_neg hupper, if_neg hupper]

-- The plain letters at the front of a text do not depend on what follows.
theorem lowerFrom_append (before : Text) (cs : List Char) (h : ∀ c ∈ cs, c.toNat < 128)
    (rest : Text) :
    ∃ before', Text.lowerFrom before (Text.ofChars cs ++ rest) =
      Text.ofChars (cs.map Char.toLower) ++ Text.lowerFrom before' rest := by
  induction cs generalizing before with
  | nil => exact ⟨before, rfl⟩
  | cons c cs ih =>
      obtain ⟨hc, hcs⟩ := List.forall_mem_cons.mp h
      obtain ⟨before', ih⟩ := ih (.scalar c :: before) hcs
      refine ⟨before', ?_⟩
      have hsigma : c ≠ 'Σ' := by
        rintro rfl
        exact absurd hc (by decide)
      change Text.lowerFrom before (.scalar c :: (Text.ofChars cs ++ rest)) = _
      rw [Text.lowerFrom, ih, if_neg hsigma, lowerChar_of_lt hc]
      rfl

theorem ofChars_inj {cs ds : List Char} (h : Text.ofChars cs = Text.ofChars ds) : cs = ds :=
  (List.map_inj_right fun _ _ => CodePoint.scalar.inj).mp h

theorem lower_ofChars {cs : List Char} (h : ∀ c ∈ cs, c.toNat < 128) :
    Text.lower (Text.ofChars cs) = Text.ofChars (cs.map Char.toLower) := by
  obtain ⟨before', heq⟩ := lowerFrom_append [] cs h []
  simpa [Text.lower, Text.lowerFrom] using heq

-- A word in lower case stays as it is.
theorem lower_ofString {w : String}
    (h : (w.toList.all fun c => c.toNat < 128 ∧ c.toLower = c) = true) :
    Text.lower (Text.ofString w) = Text.ofString w := by
  simp only [List.all_eq_true, decide_eq_true_eq] at h
  have hmap : w.toList.map Char.toLower = w.toList :=
    (List.map_congr_left fun c hc => (h c hc).2).trans (List.map_id' _)
  change Text.lower (Text.ofChars w.toList) = Text.ofChars w.toList
  rw [lower_ofChars fun c hc => (h c hc).1, hmap]

end CardLore
