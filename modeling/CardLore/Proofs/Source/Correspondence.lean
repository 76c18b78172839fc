import CardLore.Proofs.Source.Lines
import CardLore.Proofs.Source.Spans

namespace CardLore

-- In each line of the text, the columns of its characters and the one behind them.
def Position.IsIn (p : Position) (cs : List Char) : Prop :=
  ∃ i row, (cs.splitOn '\n')[i]? = some row ∧ ∃ j ≤ row.length, p = ⟨i + 1, j + 1⟩

section

variable {cs : List Char} {c : Char} {i j : Nat}

theorem lineFront_of_not_mem (h : '\n' ∉ cs) : lineFront cs = cs := by
  simpa [lineFront] using lineFront_append h []

-- What is put before a line feed does not matter for the last line.
theorem lineFront_cons_of_mem (h : '\n' ∈ cs) (c : Char) : lineFront (c :: cs) = lineFront cs := by
  obtain ⟨front, after, rfl⟩ := List.append_of_mem h
  rw [← List.cons_append, lineFront_lineFeed, lineFront_lineFeed]

theorem length_lineFront_cons (hc : c ≠ '\n') (h : '\n' ∉ cs) :
    (lineFront (c :: cs)).length = (lineFront cs).length + 1 := by
  rw [lineFront_of_not_mem h, lineFront_of_not_mem (by simp [h, hc.symm]), List.length_cons]

theorem splitOn_lineFeed_cons (c : Char) (cs : List Char) :
    (c :: cs).splitOn '\n' =
      if c = '\n' then [] :: cs.splitOn '\n' else (cs.splitOn '\n').modifyHead (c :: ·) := by
  simp [List.splitOn, List.splitOnP_cons_eq_if_modifyHead]

theorem exists_prefix_cons_iff {P : List Char → Prop} :
    (∃ before, before <+: c :: cs ∧ P before) ↔
      P [] ∨ ∃ before, before <+: cs ∧ P (c :: before) := by
  simp [List.prefix_cons_iff, or_and_right, exists_or]

-- How far one is in which line, behind some front of the text. By induction on the text, whose
-- first character makes the first line longer or ends it.
theorem exists_row_iff : (∃ row, (cs.splitOn '\n')[i]? = some row ∧ j ≤ row.length) ↔
    ∃ before, before <+: cs ∧ before.count '\n' = i ∧ (lineFront before).length = j := by
  induction cs generalizing i j with
  | nil => cases i <;> simp [lineFront, eq_comm]
  | cons c cs ih =>
      rw [exists_prefix_cons_iff, splitOn_lineFeed_cons]
      by_cases hc : c = '\n'
      · subst hc
        have hfront : ∀ before, lineFront ('\n' :: before) = lineFront before :=
          fun before => lineFront_lineFeed [] before
        cases i with
        | zero => simp [lineFront, eq_comm]
        | succ i => simp [hfront, ih]
      · obtain ⟨row, hrow, -⟩ : ∃ row, (cs.splitOn '\n')[0]? = some row ∧ 0 ≤ row.length :=
          ih.mpr ⟨[], List.nil_prefix, rfl, rfl⟩
        simp only [if_neg hc, List.count_cons_of_ne hc]
        cases i with
        | zero =>
            cases j with
            | zero => simp [hrow, lineFront]
            | succ j =>
                have hlonger : (∃ row, ((cs.splitOn '\n').modifyHead (c :: ·))[0]? = some row ∧
                    j + 1 ≤ row.length) ↔ ∃ row, (cs.splitOn '\n')[0]? = some row ∧
                      j ≤ row.length := by simp [hrow]
                rw [hlonger, ih, or_iff_right (by simp [lineFront])]
                refine exists_congr fun before => and_congr_right fun _ => and_congr_right fun hi => ?_
                rw [length_lineFront_cons hc (List.count_eq_zero.mp hi), Nat.add_right_cancel_iff]
        | succ i =>
            simp only [List.getElem?_modifyHead_succ]
            rw [ih, or_iff_right (by simp)]
            refine exists_congr fun before => and_congr_right fun _ => and_congr_right fun hi => ?_
            rw [lineFront_cons_of_mem (List.count_pos_iff.mp (by omega))]

end

instance : LE Position :=
  ⟨fun p q => p.line < q.line ∨ p.line = q.line ∧ p.col ≤ q.col⟩

theorem Position.le_iff {p q : Position} :
    p ≤ q ↔ p.line < q.line ∨ p.line = q.line ∧ p.col ≤ q.col :=
  Iff.rfl

theorem Position.le_refl (p : Position) : p ≤ p :=
  .inr ⟨rfl, Nat.le_refl _⟩

theorem Position.le_of_lt {p q : Position} (h : p < q) : p ≤ q :=
  h.imp id fun h => ⟨h.1, Nat.le_of_lt h.2⟩

theorem Position.not_le_of_lt {p q : Position} (h : p < q) : ¬ q ≤ p := by
  rw [lt_iff] at h
  rw [le_iff]
  omega

-- The span reaches from before the position, or from it, to it or beyond.
def Span.Covers (span : Span) (p : Position) : Prop :=
  span.first ≤ p ∧ p ≤ span.last

namespace LineIndex

variable {cs : List Char} {a b : Nat}

theorem position_le_iff (ha : a ≤ cs.length) (hb : b ≤ cs.length) :
    (ofChars cs).position a ≤ (ofChars cs).position b ↔ a ≤ b := by
  rcases Nat.lt_trichotomy a b with hab | rfl | hab
  · exact iff_of_true (Position.le_of_lt (position_lt hab hb)) (Nat.le_of_lt hab)
  · exact iff_of_true (Position.le_refl _) (Nat.le_refl _)
  · exact iff_of_false (Position.not_le_of_lt (position_lt hab ha)) (Nat.not_le_of_lt hab)

theorem position_injective (ha : a ≤ cs.length) (hb : b ≤ cs.length)
    (h : (ofChars cs).position a = (ofChars cs).position b) : a = b := by
  have hrefl := Position.le_refl ((ofChars cs).position a)
  exact Nat.le_antisymm ((position_le_iff ha hb).mp (h ▸ hrefl))
    ((position_le_iff hb ha).mp (h ▸ hrefl))

-- Every position of the text is that of an offset, and the other way round.
theorem isIn_iff_exists_offset (p : Position) :
    p.IsIn cs ↔ ∃ offset ≤ cs.length, (ofChars cs).position offset = p := by
  constructor
  · rintro ⟨i, row, hrow, j, hj, rfl⟩
    obtain ⟨before, ⟨after, rfl⟩, rfl, rfl⟩ := exists_row_iff.mp ⟨row, hrow, hj⟩
    exact ⟨before.length, by simp, position_append before after⟩
  · rintro ⟨offset, hoffset, rfl⟩
    obtain ⟨row, hrow, hle⟩ := exists_row_iff.mpr ⟨_, List.take_prefix offset cs, rfl, rfl⟩
    exact ⟨_, row, hrow, _, hle, position_eq_behind hoffset⟩

end LineIndex

-- The position of an offset tells the line feeds before it and the characters since the last of
-- them. Later offsets have later positions, and the positions of the text are those of exactly one
-- offset each. The span between two offsets is that of the offsets from the first one up to the
-- last before the second one, or of the first one alone.
theorem offsets_correspond_to_positions (file : String) (source : List Char) (limit : Nat)
    (newlines : Bool) (s : State) :
    let index := LineIndex.ofChars source
    (∀ offset ≤ source.length, index.position offset = .behind (source.take offset)) ∧
    (∀ a b, a < b → b ≤ source.length → index.position a < index.position b) ∧
    (∀ p : Position, p.IsIn source ↔
      ∃! offset, offset ≤ source.length ∧ index.position offset = p) ∧
    ∀ start stop, start ≤ source.length → stop ≤ source.length + 1 →
      ∃ span, Parser.spanBetween start stop ⟨⟨file, limit⟩, index, newlines⟩ s = .ok span s ∧
        span.file = file ∧ span.first = index.position start ∧
        span.last = index.position (max start (stop - 1)) ∧ span.first ≤ span.last ∧
        ∀ offset ≤ source.length, span.Covers (index.position offset) ↔
          start ≤ offset ∧ offset ≤ max start (stop - 1) := by
  intro index
  refine ⟨fun offset => LineIndex.position_eq_behind, fun a b => LineIndex.position_lt, ?_, ?_⟩
  · intro p
    rw [LineIndex.isIn_iff_exists_offset]
    constructor
    · rintro ⟨offset, hoffset, rfl⟩
      refine ⟨offset, ⟨hoffset, rfl⟩, ?_⟩
      rintro other ⟨hother, heq⟩
      exact LineIndex.position_injective hother hoffset heq
    · rintro ⟨offset, ⟨hoffset, hp⟩, -⟩
      exact ⟨offset, hoffset, hp⟩
  · intro start stop hstart hstop
    have hlast : max start (stop - 1) ≤ source.length := by omega
    refine ⟨index.span file start stop, rfl, rfl, rfl, rfl,
      (LineIndex.position_le_iff hstart hlast).mpr (Nat.le_max_left _ _), ?_⟩
    intro offset hoffset
    exact and_congr (LineIndex.position_le_iff hstart hoffset)
      (LineIndex.position_le_iff hoffset hlast)

-- From a line feed to the end of the text, behind the last line feed.
theorem offsets_correspond_to_positions_line_feeds :
    let source := "ab\ncd\n".toList
    let index := LineIndex.ofChars source
    index.position 2 = ⟨1, 3⟩ ∧ index.position 2 < index.position 3 ∧
    ∃ span, Parser.spanBetween 2 7 (.ofSource "a.crucible" source 1) (.ofSource source) =
        .ok span (.ofSource source) ∧
      span.first = ⟨1, 3⟩ ∧ span.last = ⟨3, 1⟩ ∧ span.Covers (index.position 5) ∧
      ¬ span.Covers (index.position 1) := by
  intro source index
  obtain ⟨hposition, hlt, -, hspan⟩ :=
    offsets_correspond_to_positions "a.crucible" source 1 true (.ofSource source)
  obtain ⟨span, hrun, -, hfirst, hlast, -, hcovers⟩ := hspan 2 7 (by decide) (by decide)
  refine ⟨hposition 2 (by decide), hlt 2 3 (by decide) (by decide), span, hrun,
    hfirst.trans (hposition 2 (by decide)), hlast.trans (hposition 6 (by decide)), ?_, ?_⟩
  · exact (hcovers 5 (by decide)).mpr (by decide)
  · exact fun h => absurd ((hcovers 1 (by decide)).mp h) (by decide)

end CardLore
