import CardLore.Source.LineIndex
import Mathlib.Data.List.DropRight

namespace CardLore

-- Positions are compared by their lines first, then by their columns.
instance : LT Position :=
  ⟨fun p q => p.line < q.line ∨ p.line = q.line ∧ p.col < q.col⟩

theorem Position.lt_iff {p q : Position} :
    p < q ↔ p.line < q.line ∨ p.line = q.line ∧ p.col < q.col :=
  Iff.rfl

-- The part of a line that stands before an offset: what follows the last line feed of the text
-- before it.
def lineFront (before : List Char) : List Char :=
  before.rtakeWhile (· ≠ '\n')

theorem lineFront_concat (cs : List Char) (c : Char) :
    lineFront (cs ++ [c]) = if c = '\n' then [] else lineFront cs ++ [c] := by
  rw [lineFront, List.rtakeWhile_concat]
  by_cases hc : c = '\n' <;> simp [hc, lineFront]

-- What holds no line feed only makes the line longer.
theorem lineFront_append {ds : List Char} (h : '\n' ∉ ds) (cs : List Char) :
    lineFront (cs ++ ds) = lineFront cs ++ ds := by
  induction ds using List.reverseRecOn with
  | nil => simp
  | append_singleton ds d ih =>
      obtain ⟨hds, hd⟩ : '\n' ∉ ds ∧ d ≠ '\n' := by simpa [eq_comm] using h
      rw [← List.append_assoc, lineFront_concat, if_neg hd, ih hds, List.append_assoc]

-- The position that comes right behind a text.
def Position.behind (before : List Char) : Position :=
  ⟨before.count '\n' + 1, (lineFront before).length + 1⟩

namespace LineIndex

section

variable {starts : Array Nat} {offset lo mid hi m n : Nat}

-- The place of an offset in a table is from `lo` to `hi`: what is before `lo` is at most the
-- offset, and what is from `hi` on is greater.
structure Brackets (starts : Array Nat) (offset lo hi : Nat) : Prop where
  le : lo ≤ hi
  bound : hi ≤ starts.size
  before : ∀ i (h : i < starts.size), i < lo → starts[i] ≤ offset
  behind : ∀ i (h : i < starts.size), hi ≤ i → offset < starts[i]

theorem getElem_le_getElem (hascending : starts.toList.Pairwise (· < ·)) {i j : Nat} (hij : i ≤ j)
    (hj : j < starts.size) : starts[i] ≤ starts[j] := by
  rcases Nat.lt_or_eq_of_le hij with hlt | rfl
  · have hi : i < starts.size := by omega
    exact Nat.le_of_lt (List.pairwise_iff_getElem.mp hascending i j hi hj hlt)
  · exact Nat.le_refl _

theorem Brackets.lower (h : Brackets starts offset lo hi)
    (hascending : starts.toList.Pairwise (· < ·)) (hlo : lo ≤ mid) (hmid : mid < starts.size)
    (hoffset : offset < starts[mid]) : Brackets starts offset lo mid where
  le := hlo
  bound := Nat.le_of_lt hmid
  before := h.before
  behind := fun _ hi hle => Nat.lt_of_lt_of_le hoffset (getElem_le_getElem hascending hle hi)

theorem Brackets.upper (h : Brackets starts offset lo hi)
    (hascending : starts.toList.Pairwise (· < ·)) (hhi : mid < hi) (hmid : mid < starts.size)
    (hoffset : starts[mid] ≤ offset) : Brackets starts offset (mid + 1) hi where
  le := hhi
  bound := h.bound
  before := fun _ _ hlt =>
    Nat.le_trans (getElem_le_getElem hascending (Nat.le_of_lt_succ hlt) hmid) hoffset
  behind := h.behind

-- Each halving keeps the place in the range, and in the end no other is left.
theorem Brackets.bisect (hascending : starts.toList.Pairwise (· < ·))
    (h : Brackets starts offset lo hi) :
    Brackets starts offset (bisect starts offset lo hi h.bound)
      (bisect starts offset lo hi h.bound) := by
  fun_induction LineIndex.bisect starts offset lo hi h.bound with
  | case1 lo hi _ hlt mid hmid hoffset ih =>
      exact ih (h.lower hascending (by omega) hmid hoffset)
  | case2 lo hi _ hlt mid hmid hoffset ih =>
      exact ih (h.upper hascending (by omega) hmid (Nat.le_of_not_lt hoffset))
  | case3 lo hi _ hlt =>
      obtain rfl : lo = hi := Nat.le_antisymm h.le (Nat.le_of_not_lt hlt)
      exact h

theorem Brackets.not_lt (hm : Brackets starts offset m m) (hn : Brackets starts offset n n) :
    ¬ m < n := by
  intro hlt
  have hsize : m < starts.size := Nat.lt_of_lt_of_le hlt hn.bound
  have hle := hn.before m hsize hlt
  have hgt := hm.behind m hsize (Nat.le_refl m)
  omega

theorem Brackets.unique (hm : Brackets starts offset m m) (hn : Brackets starts offset n n) :
    m = n :=
  Nat.le_antisymm (Nat.le_of_not_lt (hn.not_lt hm)) (Nat.le_of_not_lt (hm.not_lt hn))

theorem brackets_lineOf (index : LineIndex) (offset : Nat) :
    Brackets index.starts offset (index.lineOf offset) (index.lineOf offset) := by
  have hall : Brackets index.starts offset 0 index.starts.size :=
    ⟨Nat.zero_le _, Nat.le_refl _, fun _ _ hlt => absurd hlt (Nat.not_lt_zero _),
      fun _ hlt hle => absurd hlt (Nat.not_lt_of_le hle)⟩
  exact hall.bisect index.ascending

theorem position_of_brackets {index : LineIndex} {start : Nat}
    (h : Brackets index.starts offset (n + 1) (n + 1)) (hstart : index.starts[n]? = some start) :
    index.position offset = ⟨n + 1, offset - start + 1⟩ := by
  have hline : index.lineOf offset = n + 1 := (brackets_lineOf index offset).unique h
  obtain ⟨_, rfl⟩ := Array.getElem?_eq_some_iff.mp hstart
  simp only [position, hline, Nat.add_sub_cancel]

-- A table whose front is at most the offset, and whose back is greater.
theorem brackets_toArray {front back : List Nat} (hfront : ∀ n ∈ front, n ≤ offset)
    (hback : ∀ n ∈ back, offset < n) :
    Brackets (front ++ back).toArray offset front.length front.length where
  le := Nat.le_refl _
  bound := by simp
  before := fun i _ hlt => by
    simpa [List.getElem_append_left hlt] using hfront _ (List.getElem_mem hlt)
  behind := fun i hi hle => by
    have hlt : i - front.length < back.length := by
      simp only [List.size_toArray, List.length_append] at hi
      omega
    simpa [List.getElem_append_right hle] using hback _ (List.getElem_mem hlt)

end

theorem startsAfter_append (offset : Nat) (cs ds : List Char) :
    startsAfter offset (cs ++ ds) =
      startsAfter offset cs ++ startsAfter (offset + cs.length) ds := by
  induction cs generalizing offset with
  | nil => rfl
  | cons c cs ih =>
      have hoffset : offset + 1 + cs.length = offset + (c :: cs).length := by
        rw [List.length_cons]
        omega
      by_cases hc : c = '\n' <;> simp [startsAfter, hc, ih, hoffset]

theorem length_startsAfter (offset : Nat) (cs : List Char) :
    (startsAfter offset cs).length = cs.count '\n' := by
  induction cs generalizing offset with
  | nil => rfl
  | cons c cs ih => by_cases hc : c = '\n' <;> simp [startsAfter, hc, ih]

-- The last line starts as many characters before the end as it has.
theorem exists_last_start (offset : Nat) (cs : List Char) :
    ∃ start, (offset :: startsAfter offset cs)[cs.count '\n']? = some start ∧
      start + (lineFront cs).length = offset + cs.length := by
  induction cs using List.reverseRecOn with
  | nil => exact ⟨offset, rfl, rfl⟩
  | append_singleton cs c ih =>
      rw [startsAfter_append, lineFront_concat, ← List.cons_append, List.length_append]
      by_cases hc : c = '\n'
      · refine ⟨offset + cs.length + 1, ?_, by simp [hc, Nat.add_assoc]⟩
        rw [hc, List.getElem?_append_right (by simp [length_startsAfter])]
        simp [length_startsAfter, startsAfter]
      · obtain ⟨start, hstart, hlength⟩ := ih
        refine ⟨start, ?_, by simp [hc]; omega⟩
        simpa [startsAfter, hc, List.count_append] using hstart

theorem starts_append (before after : List Char) :
    (ofChars (before ++ after)).starts =
      ((0 :: startsAfter 0 before) ++ startsAfter before.length after).toArray := by
  simp [ofChars, startsAfter_append]

-- Behind a text, the lines that have started are those of the text.
theorem brackets_append (before after : List Char) :
    Brackets (ofChars (before ++ after)).starts before.length (before.count '\n' + 1)
      (before.count '\n' + 1) := by
  have hlength : before.count '\n' + 1 = (0 :: startsAfter 0 before).length := by
    rw [List.length_cons, length_startsAfter]
  rw [starts_append, hlength]
  refine brackets_toArray (fun n hn => ?_) (fun n hn => (mem_startsAfter hn).1)
  rcases List.mem_cons.mp hn with rfl | hn
  · exact Nat.zero_le _
  · have hle := (mem_startsAfter hn).2
    omega

theorem position_append (before after : List Char) :
    (ofChars (before ++ after)).position before.length = .behind before := by
  obtain ⟨start, hstart, hlength⟩ := exists_last_start 0 before
  have hlt := (List.getElem?_eq_some_iff.mp hstart).1
  have hentry : (ofChars (before ++ after)).starts[before.count '\n']? = some start := by
    rw [starts_append, List.getElem?_toArray, List.getElem?_append_left hlt, hstart]
  rw [position_of_brackets (brackets_append before after) hentry, Position.behind]
  congr 2
  omega

theorem position_eq_behind {cs : List Char} {offset : Nat} (h : offset ≤ cs.length) :
    (ofChars cs).position offset = .behind (cs.take offset) := by
  have happend := position_append (cs.take offset) (cs.drop offset)
  rwa [List.take_append_drop, List.length_take_of_le h] at happend

theorem position_lt {cs : List Char} {a b : Nat} (hab : a < b) (hb : b ≤ cs.length) :
    (ofChars cs).position a < (ofChars cs).position b := by
  obtain ⟨front, after, rfl, rfl⟩ : ∃ front after, cs = front ++ after ∧ b = front.length :=
    ⟨cs.take b, cs.drop b, (List.take_append_drop b cs).symm, (List.length_take_of_le hb).symm⟩
  obtain ⟨before, mid, rfl, rfl⟩ : ∃ before mid, front = before ++ mid ∧ a = before.length :=
    ⟨front.take a, front.drop a, (List.take_append_drop a front).symm,
      (List.length_take_of_le hab.le).symm⟩
  rw [position_append, List.append_assoc, position_append, Position.lt_iff]
  dsimp only [Position.behind]
  rw [List.length_append] at hab
  by_cases hfeed : '\n' ∈ mid
  · have hcount : 0 < mid.count '\n' := List.count_pos_iff.mpr hfeed
    rw [List.count_append]
    omega
  · rw [lineFront_append hfeed, List.count_append, List.count_eq_zero_of_not_mem hfeed,
      List.length_append]
    omega

end LineIndex

end CardLore
