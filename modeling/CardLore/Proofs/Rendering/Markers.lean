import CardLore.Diagnostic.Render
import CardLore.Proofs.Source.Lines

namespace CardLore

-- What the reported characters are marked with.
def Label.marker (label : Label) : Char :=
  if label.style = .primary then '^' else '-'

-- The column, counted from zero, shows a character of the span, if the source line that the span
-- lies in is printed from the column `start` on.
def Span.Shows (span : Span) (start column : Nat) : Prop :=
  start + span.startCol ≤ column + 1 ∧ column + 1 ≤ start + span.endCol

-- For the label a line that ends in the source text `shown` is printed and, right below it, a line
-- of markers. A column of the latter has a marker iff the column `shift` further to the right shows
-- a reported character.
def Renderer.MarksLeft (r : Renderer) (severity : Severity) (label : Label) (shown : List Char)
    (shift : Nat) : Prop :=
  ∃ place bar front markers remark,
    r.labelLines severity label =
        [place, bar, front ++ Text.ofChars shown, markers] ++ remark ∧
      ∀ column, markers[column]? = some (.scalar label.marker) ↔
        label.span.Shows front.length (column + shift)

namespace Renderer

-- What stands before the source text of a line.
def sourceFront (n : Nat) : Text :=
  Text.ofString "  " ++ (Text.ofString (gutter n) ++ Text.ofString " |") ++ Text.ofString " "

-- What stands before the markers, and the blanks that lead to the first one.
def markerFront : Text :=
  Text.ofString "     | "

theorem length_ofString (s : String) : (Text.ofString s).length = s.length := by
  rw [Text.ofString, Text.ofChars, List.length_map, String.length_toList]

theorem length_gutter (n : Nat) : (gutter n).length = max 4 (toString n).length := by
  simp only [gutter, String.length_append, String.length_ofList, List.length_replicate]
  omega

theorem length_sourceFront (n : Nat) :
    (sourceFront n).length = max 4 (toString n).length + 5 := by
  simp only [sourceFront, List.length_append, length_ofString, length_gutter]
  change 2 + (max 4 (toString n).length + 2) + 1 = _
  omega

variable {r : Renderer} {severity : Severity} {label : Label} {shown : List Char}

theorem barred_plain (hplain : r.colour = false) (before : String) (rest : Text) :
    r.barred before rest =
      Text.ofString "  " ++ (Text.ofString before ++ Text.ofString " |") ++ rest := by
  simp [barred, painted, hplain, Text.concat]

theorem markerLines_plain (hplain : r.colour = false)
    (hline : label.span.startLine = label.span.endLine)
    (hcols : label.span.startCol ≤ label.span.endCol) :
    r.markerLines severity label = [markerFront ++
      (Text.ofChars (List.replicate (label.span.startCol - 1) ' ') ++
        Text.ofChars (List.replicate (label.span.endCol + 1 - label.span.startCol) label.marker))] := by
  have hcount : max 1 (label.span.endCol + 1 - label.span.startCol) =
      label.span.endCol + 1 - label.span.startCol := by omega
  rw [markerLines, if_pos hline, hcount]
  dsimp only
  rw [barred_plain hplain, painted, hplain, if_neg Bool.false_ne_true, Text.concat,
    List.flatten_cons, List.flatten_cons, List.flatten_cons, List.flatten_nil, List.append_nil]
  rfl

theorem labelLines_plain (severity : Severity) (hplain : r.colour = false)
    (hsource : r.sourceLine? label.span.file label.span.startLine = some shown) :
    ∃ place bar remark, r.labelLines severity label =
      [place, bar, sourceFront label.span.startLine ++ Text.ofChars shown] ++
        r.markerLines severity label ++ remark := by
  refine ⟨Text.concat ["  ", r.painted blue "-->", " ", label.span.location], r.barred "  " [],
    if label.message.isEmpty then []
    else [r.barred "  " (Text.concat ["   ", r.painted severity.colour label.message])], ?_⟩
  have hshown : r.barred (gutter label.span.startLine)
      (Text.concat [Text.ofString " ", r.shownLine shown]) =
        sourceFront label.span.startLine ++ Text.ofChars shown := by
    simp [barred_plain hplain, shownLine, hplain, Text.concat, sourceFront]
  rw [labelLines, hsource, ← hshown]
  rfl

-- The columns of the line of markers, counted from zero.
theorem marked_iff (hfirst : 1 ≤ label.span.startCol) (column : Nat) :
    (markerFront ++ (Text.ofChars (List.replicate (label.span.startCol - 1) ' ') ++
      Text.ofChars (List.replicate (label.span.endCol + 1 - label.span.startCol)
        label.marker)))[column]? = some (.scalar label.marker) ↔
      label.span.startCol + 6 ≤ column ∧ column ≤ label.span.endCol + 6 := by
  have hblank : CodePoint.scalar ' ' ≠ .scalar label.marker := by
    rw [Label.marker]
    split <;> decide
  have hfront : ∀ i : Nat, markerFront[i]? ≠ some (CodePoint.scalar label.marker) := by
    intro i h
    have hmem := List.mem_of_getElem? h
    rw [Label.marker] at hmem
    split at hmem <;> exact absurd hmem (by decide)
  have hlength : markerFront.length = 7 := rfl
  simp only [Text.ofChars, List.map_replicate, List.getElem?_append, List.getElem?_replicate,
    List.length_replicate, hlength]
  split_ifs <;> simp [hfront, hblank] <;> omega

theorem marksLeft (severity : Severity) (hplain : r.colour = false)
    (hline : label.span.startLine = label.span.endLine) (hfirst : 1 ≤ label.span.startCol)
    (hcols : label.span.startCol ≤ label.span.endCol)
    (hsource : r.sourceLine? label.span.file label.span.startLine = some shown) :
    r.MarksLeft severity label shown (max 4 (toString label.span.startLine).length - 2) := by
  obtain ⟨place, bar, remark, hlines⟩ := labelLines_plain severity hplain hsource
  rw [markerLines_plain hplain hline hcols] at hlines
  refine ⟨place, bar, _, _, remark, hlines, fun column => ?_⟩
  rw [marked_iff hfirst, Span.Shows, length_sourceFront]
  omega

-- The last reported character has its marker in one column only.
theorem MarksLeft.eq_zero {shift : Nat} (hfirst : 1 ≤ label.span.startCol)
    (hcols : label.span.startCol ≤ label.span.endCol)
    (h : r.MarksLeft severity label shown shift) (hunder : r.MarksLeft severity label shown 0) :
    shift = 0 := by
  obtain ⟨place, bar, front, markers, remark, hlines, hmarked⟩ := h
  obtain ⟨place', bar', front', markers', remark', hlines', hunder⟩ := hunder
  have hparts := List.append_inj (hlines.symm.trans hlines') rfl
  simp only [List.cons.injEq, List.append_cancel_right_eq, and_true] at hparts
  obtain ⟨⟨-, -, rfl, rfl⟩, -⟩ := hparts
  have hlast : label.span.Shows front.length (front.length + label.span.endCol - 1 + 0) := by
    constructor <;> omega
  have hshift := ((hmarked _).mp ((hunder _).mpr hlast)).2
  omega

-- The lines of a label are printed one below the other.
theorem exists_render_eq {d : Diagnostic} (hlabel : label ∈ d.labels) :
    ∃ before after, r.render d =
      Text.join "\n" (before ++ r.labelLines d.severity label ++ after) := by
  obtain ⟨front, back, hlabels⟩ := List.append_of_mem hlabel
  refine ⟨r.heading d :: front.flatMap (r.labelLines d.severity),
    back.flatMap (r.labelLines d.severity) ++ d.notes.map r.noteLine, ?_⟩
  rw [render, hlabels]
  simp only [List.flatMap_append, List.flatMap_cons, List.cons_append, List.append_assoc]

end Renderer

-- A source line and its markers are printed for the label, but no marker stands below the character
-- that it is meant for: the markers are shifted to the left by the width of the gutter of the
-- source line less the two columns that the line of markers leaves for it.
theorem markers_stand_left_of_reported_text {r : Renderer} {d : Diagnostic} {label : Label}
    {shown : List Char} (hplain : r.colour = false) (hlabel : label ∈ d.labels)
    (hline : label.span.startLine = label.span.endLine) (hfirst : 1 ≤ label.span.startCol)
    (hcols : label.span.startCol ≤ label.span.endCol)
    (hsource : r.sourceLine? label.span.file label.span.startLine = some shown) :
    (∃ before after, r.render d =
      Text.join "\n" (before ++ r.labelLines d.severity label ++ after)) ∧
    r.MarksLeft d.severity label shown (max 4 (toString label.span.startLine).length - 2) ∧
    ¬ r.MarksLeft d.severity label shown 0 := by
  have hleft := Renderer.marksLeft d.severity hplain hline hfirst hcols hsource
  refine ⟨Renderer.exists_render_eq hlabel, hleft, fun hunder => ?_⟩
  have hzero := hleft.eq_zero hfirst hcols hunder
  omega

-- A label in line 12345: the gutter of its source line takes one column more.
theorem markers_stand_left_of_reported_text_long_file :
    let r : Renderer := ⟨false, fun _ _ => some "  set icon = 3".toList⟩
    let label : Label := .secondary ⟨"long.crucible", 12345, 3, 12345, 14⟩ "here"
    let d : Diagnostic := ⟨.warning, "E202", "bad icon", [.primary (.ofFile "a"), label], []⟩
    label ∈ d.labels ∧ r.MarksLeft d.severity label "  set icon = 3".toList 3 ∧
      ¬ r.MarksLeft d.severity label "  set icon = 3".toList 0 := by
  intro r label d
  have hlabel : label ∈ d.labels := by decide
  have hshift : max 4 (toString label.span.startLine).length - 2 = 3 := by decide
  have hmarkers := markers_stand_left_of_reported_text (r := r) rfl hlabel rfl (by decide)
    (by decide) rfl
  rw [hshift] at hmarkers
  exact ⟨hlabel, hmarkers.2⟩

-- The marker is meant for the first character of the line, and stands two columns before it.
theorem marker_stands_left_of_stray_word :
    let r : Renderer := ⟨false, (singleFile "a.crucible" "stray\n").sourceLine?⟩
    let label : Label := .primary ⟨"a.crucible", 1, 1, 1, 1⟩
    let d : Diagnostic := ⟨.error, "E101", "unparsed input", [label], []⟩
    r.sourceLine? "a.crucible" 1 = some "stray".toList ∧
      r.render d = Text.ofString ("error[E101]: unparsed input\n  --> a.crucible:1:1\n" ++
        "     |\n     1 | stray\n     | ^") ∧
      ¬ r.MarksLeft d.severity label "stray".toList 0 := by
  intro r label d
  have hsource : r.sourceLine? label.span.file label.span.startLine = some "stray".toList := by
    decide +kernel
  refine ⟨hsource, by decide +kernel, fun hunder => ?_⟩
  have hleft := Renderer.marksLeft d.severity rfl rfl (by decide) (by decide) hsource
  have hzero := hleft.eq_zero (by decide) (by decide) hunder
  omega

end CardLore
