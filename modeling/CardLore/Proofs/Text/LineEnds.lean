import CardLore.Text.Lines

namespace CardLore.Text

theorem unifyLineEnds_of_ne {c : Char} (hc : c ≠ '\r') (rest : List Char) :
    unifyLineEnds (c :: rest) = c :: unifyLineEnds rest := by
  rw [unifyLineEnds, if_neg hc]
  exact fun _ heq => absurd heq hc

theorem unifyLineEnds_append_left {front : List Char} (h : '\r' ∉ front) (rest : List Char) :
    unifyLineEnds (front ++ rest) = front ++ unifyLineEnds rest := by
  induction front with
  | nil => rfl
  | cons c front ih =>
      obtain ⟨hc, hfront⟩ := not_or.mp (mt List.mem_cons.mpr h)
      rw [List.cons_append, unifyLineEnds_of_ne (Ne.symm hc), ih hfront, List.cons_append]

theorem unifyLineEnds_eq_self {cs : List Char} (h : '\r' ∉ cs) : unifyLineEnds cs = cs := by
  have happend := unifyLineEnds_append_left h []
  rwa [List.append_nil, unifyLineEnds, List.append_nil] at happend

-- A line end lies on one side of a cut, unless the cut is before a line feed.
theorem unifyLineEnds_append_right (cs : List Char) {rest : List Char}
    (h : rest.head? ≠ some '\n') :
    unifyLineEnds (cs ++ rest) = unifyLineEnds cs ++ unifyLineEnds rest := by
  induction cs using unifyLineEnds.induct with
  | case1 => rfl
  | case2 cs ih => exact congrArg ('\n' :: ·) ih
  | case3 c cs hcs ih =>
      have happend : ∀ more, c = '\r' → cs ++ rest = '\n' :: more → False := by
        intro more hc heq
        cases cs with
        | nil =>
            rw [List.nil_append] at heq
            exact h (heq ▸ rfl)
        | cons d cs => exact hcs cs hc (congrArg (· :: cs) (List.cons.inj heq).1)
      rw [List.cons_append, unifyLineEnds.eq_3 c _ happend, unifyLineEnds.eq_3 c cs hcs, ih,
        List.cons_append]

theorem length_unifyLineEnds_le (cs : List Char) : (unifyLineEnds cs).length ≤ cs.length := by
  induction cs using unifyLineEnds.induct with
  | case1 => exact Nat.le_refl 0
  | case2 cs ih =>
      rw [unifyLineEnds, List.length_cons, List.length_cons, List.length_cons]
      omega
  | case3 c cs hcs ih =>
      rw [unifyLineEnds.eq_3 c cs hcs, List.length_cons, List.length_cons]
      omega

theorem return_notMem_unifyLineEnds (cs : List Char) : '\r' ∉ unifyLineEnds cs := by
  induction cs using unifyLineEnds.induct with
  | case1 => exact List.not_mem_nil
  | case2 cs ih => simpa [unifyLineEnds] using ih
  | case3 c cs hcs ih =>
      rw [unifyLineEnds.eq_3 c cs hcs, List.mem_cons]
      rintro (heq | hmem)
      · by_cases hc : c = '\r'
        · simp [hc] at heq
        · exact hc (by simpa [hc] using heq.symm)
      · exact ih hmem

end CardLore.Text
