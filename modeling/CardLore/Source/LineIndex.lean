import CardLore.Source.Span

namespace CardLore

structure Position where
  line : Nat
  col : Nat
deriving DecidableEq, Repr

-- The offsets at which the lines of a text start, in ascending order.
structure LineIndex where
  starts : Array Nat
  first : starts[0]? = some 0
  ascending : starts.toList.Pairwise (· < ·)
deriving Repr

namespace LineIndex

-- The offsets just after the line feeds of a text that starts at `offset`.
def startsAfter (offset : Nat) : List Char → List Nat
  | [] => []
  | c :: rest =>
    if c = '\n' then (offset + 1) :: startsAfter (offset + 1) rest
    else startsAfter (offset + 1) rest

-- Lines start behind the offset that the text starts at, and no later than where it ends.
theorem mem_startsAfter {offset n : Nat} {cs : List Char} (h : n ∈ startsAfter offset cs) :
    offset < n ∧ n ≤ offset + cs.length := by
  induction cs generalizing offset with
  | nil => cases h
  | cons c cs ih =>
      rw [startsAfter] at h
      rw [List.length_cons]
      split at h
      · rcases List.mem_cons.mp h with rfl | h
        · omega
        · have hn := ih h
          omega
      · have hn := ih h
        omega

theorem ascending_startsAfter (offset : Nat) (cs : List Char) :
    (offset :: startsAfter offset cs).Pairwise (· < ·) := by
  induction cs generalizing offset with
  | nil => exact List.pairwise_singleton _ _
  | cons c cs ih =>
      refine List.pairwise_cons.mpr ⟨fun n hn => (mem_startsAfter hn).1, ?_⟩
      rw [startsAfter]
      split
      · exact ih (offset + 1)
      · exact (ih (offset + 1)).of_cons

def ofChars (cs : List Char) : LineIndex where
  starts := (0 :: startsAfter 0 cs).toArray
  first := rfl
  ascending := ascending_startsAfter 0 cs

theorem size_pos (index : LineIndex) : 0 < index.starts.size :=
  (Array.getElem?_eq_some_iff.mp index.first).1

-- Halves the range from `lo` to `hi` until it is empty. Of an ascending table, the entries before
-- the place that is found are at most `offset`, and those from there on are greater.
def bisect (starts : Array Nat) (offset lo hi : Nat) (h : hi ≤ starts.size) : Nat :=
  if hlt : lo < hi then
    let mid := (lo + hi) / 2
    have hmid : mid < starts.size := by omega
    if offset < starts[mid] then bisect starts offset lo mid (Nat.le_of_lt hmid)
    else bisect starts offset (mid + 1) hi h
  else lo
termination_by hi - lo

theorem bisect_le {starts : Array Nat} {offset lo hi : Nat} (h : hi ≤ starts.size)
    (hle : lo ≤ hi) : bisect starts offset lo hi h ≤ hi := by
  fun_induction bisect starts offset lo hi h with
  | case1 lo hi h hlt mid hmid hoffset ih =>
      have hfound := ih (by omega)
      omega
  | case2 lo hi h hlt mid hmid hoffset ih => exact ih (by omega)
  | case3 => exact hle

-- The lines that start at or before an offset.
def lineOf (index : LineIndex) (offset : Nat) : Nat :=
  bisect index.starts offset 0 index.starts.size (Nat.le_refl _)

theorem lineOf_sub_one_lt (index : LineIndex) (offset : Nat) :
    index.lineOf offset - 1 < index.starts.size := by
  have hle : index.lineOf offset ≤ index.starts.size :=
    bisect_le (Nat.le_refl _) (Nat.zero_le _)
  have hpos := index.size_pos
  omega

-- The line and column of an offset: its line is the last one that starts at or before it.
def position (index : LineIndex) (offset : Nat) : Position :=
  let line := index.lineOf offset
  have hline : line - 1 < index.starts.size := index.lineOf_sub_one_lt offset
  ⟨line, offset - index.starts[line - 1] + 1⟩

-- The span of the offsets from `start` up to, and excluding, `stop`; at least the one at `start`.
def span (index : LineIndex) (file : String) (start stop : Nat) : Span :=
  let first := index.position start
  let last := index.position (max start (stop - 1))
  ⟨file, first.line, first.col, last.line, last.col⟩

end LineIndex

end CardLore
