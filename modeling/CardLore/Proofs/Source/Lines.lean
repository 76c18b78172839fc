import CardLore.Files.Tree
import CardLore.Proofs.Source.Position

namespace CardLore

-- The line that stands around an offset: what is between the line feeds before and behind it.
def lineAround (before after : List Char) : List Char :=
  lineFront before ++ after.takeWhile (· ≠ '\n')

-- Only line feeds break the lines of the text.
def BreaksAtLineFeeds (cs : List Char) : Prop :=
  ∀ c ∈ cs, Text.isLineBreak c = true → c = '\n'

instance (cs : List Char) : Decidable (BreaksAtLineFeeds cs) :=
  List.decidableBAll (fun c => Text.isLineBreak c = true → c = '\n') cs

theorem cutLinesFrom_lineFeed (read rest : List Char) :
    Text.cutLinesFrom read ('\n' :: rest) =
      ⟨read.reverse, ['\n']⟩ :: Text.cutLinesFrom [] rest :=
  rfl

theorem cutLinesFrom_of_not_break {c : Char} (hc : Text.isLineBreak c = false)
    (read rest : List Char) :
    Text.cutLinesFrom read (c :: rest) = Text.cutLinesFrom (c :: read) rest := by
  rw [Text.cutLinesFrom.eq_def]
  split
  next heq => cases heq
  next heq =>
    cases heq
    cases hc
  next heq =>
    cases heq
    rw [hc, if_neg Bool.false_ne_true]

-- No line holds a character that ends it.
theorem not_break_of_mem_cutLinesFrom {read cs : List Char}
    (hread : ∀ c ∈ read, Text.isLineBreak c = false) {line : Text.Line}
    (hline : line ∈ Text.cutLinesFrom read cs) :
    ∀ c ∈ line.content, Text.isLineBreak c = false := by
  have hreverse : ∀ c ∈ read.reverse, Text.isLineBreak c = false :=
    fun c hc => hread c (List.mem_reverse.mp hc)
  fun_induction Text.cutLinesFrom read cs with
  | case1 => cases hline
  | case2 =>
      obtain rfl := List.mem_singleton.mp hline
      exact hreverse
  | case3 read rest ih =>
      rcases List.mem_cons.mp hline with rfl | hline
      · exact hreverse
      · exact ih (List.forall_mem_nil _) hline (List.forall_mem_nil _)
  | case4 read c rest _ _ ih =>
      rcases List.mem_cons.mp hline with rfl | hline
      · exact hreverse
      · exact ih (List.forall_mem_nil _) hline (List.forall_mem_nil _)
  | case5 read c rest _ hc ih =>
      have hcread : ∀ d ∈ c :: read, Text.isLineBreak d = false :=
        List.forall_mem_cons.mpr ⟨Bool.eq_false_iff.mpr hc, hread⟩
      exact ih hcread hline fun d hd => hcread d (List.mem_reverse.mp hd)

-- Behind `read`, the line goes on up to the next line feed.
theorem head_cutLinesFrom {cs read : List Char} (hne : read ++ cs ≠ [])
    (hplain : ∀ c ∈ cs.takeWhile (· ≠ '\n'), Text.isLineBreak c = false) :
    ((Text.cutLinesFrom read cs).map (·.content))[0]? =
      some (read.reverse ++ cs.takeWhile (· ≠ '\n')) := by
  induction cs generalizing read with
  | nil =>
      have hread : read.isEmpty = false := by simpa using hne
      rw [Text.cutLinesFrom.eq_def]
      simp [hread]
  | cons c cs ih =>
      by_cases hc : c = '\n'
      · simp [hc, cutLinesFrom_lineFeed]
      · rw [List.takeWhile_cons_of_pos (by simpa using hc)] at hplain ⊢
        obtain ⟨hbreak, hplain⟩ := List.forall_mem_cons.mp hplain
        rw [cutLinesFrom_of_not_break hbreak, ih (by simp) hplain]
        simp

theorem lineFront_lineFeed (cs ds : List Char) : lineFront (cs ++ '\n' :: ds) = lineFront ds := by
  induction ds using List.reverseRecOn with
  | nil => rw [lineFront_concat, if_pos rfl, lineFront, List.rtakeWhile_nil]
  | append_singleton ds d ih =>
      rw [← List.cons_append, ← List.append_assoc, lineFront_concat, lineFront_concat, ih]

-- As many lines are cut off before the line of an offset as there are line feeds before it.
theorem getElem?_cutLinesFrom {before after read : List Char} (hafter : after ≠ [])
    (hread : ∀ c ∈ read, Text.isLineBreak c = false)
    (hbreaks : BreaksAtLineFeeds (before ++ after.takeWhile (· ≠ '\n'))) :
    ((Text.cutLinesFrom read (before ++ after)).map (·.content))[before.count '\n']? =
      some (lineAround (read.reverse ++ before) after) := by
  induction before generalizing read with
  | nil =>
      have hfeed : '\n' ∉ read.reverse := by
        intro hmem
        cases hread _ (List.mem_reverse.mp hmem)
      have hplain : ∀ c ∈ after.takeWhile (· ≠ '\n'), Text.isLineBreak c = false := by
        intro c hc
        rw [Bool.eq_false_iff]
        intro hbreak
        have hfeed := List.mem_takeWhile_imp hc
        simp [hbreaks c hc hbreak] at hfeed
      have hfront : lineFront read.reverse = read.reverse := by
        simpa [lineFront] using lineFront_append hfeed []
      rw [List.append_nil, lineAround, hfront]
      exact head_cutLinesFrom (by simp [hafter]) hplain
  | cons c before ih =>
      obtain ⟨hc, hbefore⟩ := List.forall_mem_cons.mp hbreaks
      by_cases hfeed : c = '\n'
      · subst hfeed
        rw [List.cons_append, cutLinesFrom_lineFeed, List.count_cons_self, List.map_cons,
          List.getElem?_cons_succ, ih (List.forall_mem_nil _) hbefore, lineAround, lineAround,
          lineFront_lineFeed]
        rfl
      · have hplain : Text.isLineBreak c = false :=
          Bool.eq_false_iff.mpr fun hbreak => hfeed (hc hbreak)
        have hcread : ∀ d ∈ c :: read, Text.isLineBreak d = false :=
          List.forall_mem_cons.mpr ⟨hplain, hread⟩
        rw [List.cons_append, cutLinesFrom_of_not_break hplain, List.count_cons_of_ne hfeed,
          ih hcread hbefore, List.reverse_cons, List.append_assoc, List.singleton_append]

-- A source line is shown for the offset of `c`. It is the line around the offset, and the column of
-- the offset leads to the character at the offset.
def FileSystem.ShowsLineOf (fs : FileSystem) (file : String) (before : List Char) (c : Char)
    (after : List Char) : Prop :=
  let place := (LineIndex.ofChars (before ++ c :: after)).position before.length
  ∃ shown, fs.sourceLine? file place.line = some shown ∧ shown = lineAround before (c :: after) ∧
    shown[place.col - 1]? = some c

theorem sourceLine?_succ {fs : FileSystem} {file : String} {content : List Char}
    (hread : fs.readText (.ofString file) = .ok content) (n : Nat) :
    fs.sourceLine? file (n + 1) = (Text.lines content)[n]? := by
  unfold FileSystem.sourceLine?
  rw [hread]

theorem showsLineOf {fs : FileSystem} {file : String} {before after : List Char} {c : Char}
    (hread : fs.readText (.ofString file) = .ok (before ++ c :: after)) (hc : c ≠ '\n')
    (hbreaks : BreaksAtLineFeeds (before ++ (c :: after).takeWhile (· ≠ '\n'))) :
    fs.ShowsLineOf file before c after := by
  refine ⟨lineAround before (c :: after), ?_, rfl, ?_⟩
  · rw [LineIndex.position_append, Position.behind, sourceLine?_succ hread]
    exact getElem?_cutLinesFrom (List.cons_ne_nil c after) (List.forall_mem_nil _) hbreaks
  · rw [LineIndex.position_append, Position.behind, lineAround,
      List.takeWhile_cons_of_pos (by simpa using hc)]
    simp

-- A line that is shown holds no character that breaks lines, so it is not the line around one.
theorem not_showsLineOf {fs : FileSystem} {file : String} {before after : List Char} {c : Char}
    (hread : fs.readText (.ofString file) = .ok (before ++ c :: after))
    (hbreak : Text.isLineBreak c = true) : ¬ fs.ShowsLineOf file before c after := by
  rintro ⟨line, hline, -, hcol⟩
  rw [LineIndex.position_append, Position.behind, sourceLine?_succ hread] at hline
  obtain ⟨cut, hcut, rfl⟩ := List.mem_map.mp (List.mem_of_getElem? hline)
  have hplain := not_break_of_mem_cutLinesFrom (List.forall_mem_nil _) hcut
  cases hbreak.symm.trans (hplain c (List.mem_of_getElem? hcol))

-- The line of an offset is shown if only line feeds break lines up to its end. It is shown for all
-- offsets exactly if only line feeds break lines in the whole file.
theorem source_lines_shown_iff_broken_by_line_feeds {fs : FileSystem} {file : String}
    {content : List Char} (hread : fs.readText (.ofString file) = .ok content) :
    (∀ before c after, content = before ++ c :: after → c ≠ '\n' →
      BreaksAtLineFeeds (before ++ (c :: after).takeWhile (· ≠ '\n')) →
        fs.ShowsLineOf file before c after) ∧
    ((∀ before c after, content = before ++ c :: after → c ≠ '\n' →
      fs.ShowsLineOf file before c after) ↔ BreaksAtLineFeeds content) := by
  refine ⟨?_, ?_, ?_⟩
  · rintro before c after rfl hc hbreaks
    exact showsLineOf hread hc hbreaks
  · intro hshown c hmem hbreak
    by_contra hc
    obtain ⟨before, after, rfl⟩ := List.append_of_mem hmem
    exact not_showsLineOf hread hbreak (hshown before c after rfl hc)
  · rintro hbreaks before c after rfl hc
    refine showsLineOf hread hc fun d hd => hbreaks d ?_
    rw [List.mem_append] at hd ⊢
    exact hd.imp id fun hd => (List.takeWhile_subset _) hd

theorem eq_ok_of_toOption {ε α : Type} {result : Except ε α} {value : α}
    (h : result.toOption = some value) : result = .ok value := by
  cases result with
  | ok => exact congrArg Except.ok (Option.some.inj h)
  | error => cases h

-- A directory that holds one file.
def singleFile (name text : String) : FileSystem :=
  ⟨.directory [(name, .file text.toUTF8.toList)], []⟩

def formFeedAtEnd : String := "// x\nstray\n// \x0c"

-- Before the form feed lines are shown as they should be.
theorem source_lines_shown_iff_broken_by_line_feeds_form_feed :
    let fs := singleFile "a.crucible" formFeedAtEnd
    fs.readText (.ofString "a.crucible") = .ok formFeedAtEnd.toList ∧
      fs.ShowsLineOf "a.crucible" "// x\n".toList 's' "tray\n// \x0c".toList ∧
      ¬ ∀ before c after, formFeedAtEnd.toList = before ++ c :: after → c ≠ '\n' →
        fs.ShowsLineOf "a.crucible" before c after := by
  have hread : (singleFile "a.crucible" formFeedAtEnd).readText (.ofString "a.crucible") =
      .ok formFeedAtEnd.toList := eq_ok_of_toOption (by decide +kernel)
  have hshown := source_lines_shown_iff_broken_by_line_feeds hread
  refine ⟨hread, hshown.1 _ _ _ (by decide) (by decide) (by decide), fun hall => ?_⟩
  exact absurd (hshown.2.mp hall) (by decide)

def formFeedInside : String := "// page\x0cbreak\nstray\n"

-- The form feed makes one more line, so the end of the comment is shown for the word behind it.
theorem source_line_shown_behind_form_feed :
    let fs := singleFile "a.crucible" formFeedInside
    fs.readText (.ofString "a.crucible") = .ok formFeedInside.toList ∧
      '\r' ∉ formFeedInside.toList ∧
      formFeedInside.toList = "// page\x0cbreak\n".toList ++ 's' :: "tray\n".toList ∧
      fs.sourceLine? "a.crucible" 2 = some "break".toList ∧
      ¬ fs.ShowsLineOf "a.crucible" "// page\x0cbreak\n".toList 's' "tray\n".toList := by
  have hread : (singleFile "a.crucible" formFeedInside).readText (.ofString "a.crucible") =
      .ok formFeedInside.toList := eq_ok_of_toOption (by decide +kernel)
  have hline : (singleFile "a.crucible" formFeedInside).sourceLine? "a.crucible" 2 =
      some "break".toList := by decide +kernel
  refine ⟨hread, by decide, by decide, hline, ?_⟩
  rintro ⟨line, hshown, haround, -⟩
  rw [LineIndex.position_append] at hshown
  obtain rfl := Option.some.inj (hshown.symm.trans hline)
  exact absurd haround (by decide)

end CardLore
