import CardLore.Diagnostic.Render
import CardLore.Proofs.Highlight.Token
import CardLore.Proofs.Source.Lines
import CardLore.Text.ControlSequence
import Mathlib.Data.List.Forall2

namespace CardLore

namespace Text

-- What stands between the bracket and the final letter of a sequence that sets colours.
def isColourParameter (p : CodePoint) : Bool :=
  isBetween 0x30 0x39 p || p == .scalar ';'

-- The length of the colour sequence at the front of a text, if there is one.
def colourLength? : Text → Option Nat
  | .scalar '\x1b' :: .scalar '[' :: inside =>
    match inside.dropWhile isColourParameter with
    | .scalar 'm' :: _ => some (2 + (inside.takeWhile isColourParameter).length + 1)
    | _ => none
  | _ => none

-- Leaves out the sequences; the next `skip` code points belong to one.
def dropColours : (skip : Nat) → Text → Text
  | _, [] => []
  | skip + 1, _ :: rest => dropColours skip rest
  | 0, p :: rest =>
    match colourLength? (p :: rest) with
    | some length => dropColours (length - 1) rest
    | none => p :: dropColours 0 rest

def withoutColours (t : Text) : Text :=
  dropColours 0 t

-- A sequence is left out from its escape character to its letter, and nothing else is.
example : withoutColours (ofString "a\x1b[1;31mb[0m\x1b[2Jc") = ofString "ab[0m\x1b[2Jc" := by
  decide

-- The first text is the second one with colour sequences in it, and with no other escape character.
inductive Coloured : Text → Text → Prop
  | nil : Coloured [] []
  | point {p : CodePoint} {t u : Text} (hp : p ≠ .scalar '\x1b') (h : Coloured t u) :
      Coloured (p :: t) (p :: u)
  | code {parameters t u : Text} (hparameters : ∀ p ∈ parameters, isColourParameter p = true)
      (h : Coloured t u) :
      Coloured (.scalar '\x1b' :: .scalar '[' :: (parameters ++ .scalar 'm' :: t)) u

theorem dropColours_skip (front t : Text) : dropColours front.length (front ++ t) = dropColours 0 t := by
  induction front with
  | nil => rfl
  | cons p front ih => exact ih

theorem colourLength?_code {parameters : Text} (h : ∀ p ∈ parameters, isColourParameter p = true)
    (t : Text) :
    colourLength? (.scalar '\x1b' :: .scalar '[' :: (parameters ++ .scalar 'm' :: t)) =
      some (2 + parameters.length + 1) := by
  have htake : (parameters ++ .scalar 'm' :: t).takeWhile isColourParameter = parameters := by
    rw [List.takeWhile_append_of_pos h, List.takeWhile_cons_of_neg (by decide), List.append_nil]
  have hdrop : (parameters ++ .scalar 'm' :: t).dropWhile isColourParameter = .scalar 'm' :: t := by
    rw [List.dropWhile_append_of_pos h, List.dropWhile_cons_of_neg (by decide)]
  rw [colourLength?, hdrop, htake]
  rfl

theorem colourLength?_of_ne {p : CodePoint} (hp : p ≠ .scalar '\x1b') (t : Text) :
    colourLength? (p :: t) = none := by
  rw [colourLength?.eq_def]
  split
  next heq =>
    cases heq
    exact absurd rfl hp
  next => rfl

namespace Coloured

variable {t t' u u' : Text}

theorem withoutColours_eq (h : Coloured t u) : withoutColours t = u := by
  induction h with
  | nil => rfl
  | point hp _ ih =>
      rw [withoutColours, dropColours, colourLength?_of_ne hp]
      exact congrArg _ ih
  | @code parameters t u hparameters _ ih =>
      have hlength : 2 + parameters.length + 1 - 1 =
          (CodePoint.scalar '[' :: (parameters ++ [.scalar 'm'])).length := by
        simp only [List.length_cons, List.length_append, List.length_nil]
        omega
      have htext : CodePoint.scalar '[' :: (parameters ++ .scalar 'm' :: t) =
          .scalar '[' :: (parameters ++ [.scalar 'm']) ++ t := by simp
      rw [withoutColours, dropColours, colourLength?_code hparameters]
      dsimp only
      rw [hlength, htext, dropColours_skip]
      exact ih

theorem append (h : Coloured t u) (h' : Coloured t' u') : Coloured (t ++ t') (u ++ u') := by
  induction h with
  | nil => exact h'
  | point hp _ ih => exact .point hp ih
  | @code parameters t u hparameters _ ih =>
      have hcode := Coloured.code hparameters ih
      simpa only [List.cons_append, List.append_assoc] using hcode

theorem refl (h : CodePoint.scalar '\x1b' ∉ t) : Coloured t t := by
  induction t with
  | nil => exact .nil
  | cons p t ih =>
      rw [List.mem_cons, not_or] at h
      exact .point (fun heq => h.1 heq.symm) (ih h.2)

theorem flatten {ts us : List Text} (h : List.Forall₂ Coloured ts us) :
    Coloured ts.flatten us.flatten := by
  induction h with
  | nil => exact .nil
  | cons h _ ih => exact h.append ih

theorem join {ts us : List Text} (h : List.Forall₂ Coloured ts us) {separator : Text}
    (hseparator : CodePoint.scalar '\x1b' ∉ separator) :
    Coloured (Text.join separator ts) (Text.join separator us) := by
  refine flatten ?_
  induction h with
  | nil => exact .nil
  | cons h hmore ih =>
      cases hmore with
      | nil => exact .cons h .nil
      | cons h' hmore => exact .cons h (.cons (refl hseparator) ih)

-- A code point that stands in no sequence is one of the text.
theorem mem_of_mem (h : Coloured t u) {p : CodePoint} (hp : isColourParameter p = false)
    (hne : p ∉ [.scalar '\x1b', .scalar '[', .scalar 'm']) (hmem : p ∈ t) : p ∈ u := by
  simp only [List.mem_cons, List.not_mem_nil, or_false, not_or] at hne
  induction h with
  | nil => cases hmem
  | point _ _ ih =>
      rcases List.mem_cons.mp hmem with rfl | hmem
      · exact List.mem_cons_self
      · exact List.mem_cons_of_mem _ (ih hmem)
  | code hparameters _ ih =>
      simp only [List.mem_cons, List.mem_append, hne.1, hne.2.1, hne.2.2, false_or] at hmem
      rcases hmem with hmem | hmem
      · cases hp.symm.trans (hparameters p hmem)
      · exact ih hmem

end Coloured

-- What switches a colour on or off: sequences, and nothing else.
def IsColour (code : String) : Prop :=
  Coloured (ofString code) []

theorem ofString_append (s s' : String) : ofString (s ++ s') = ofString s ++ ofString s' := by
  simp [ofString, ofChars]

theorem isColour (parameters : String) {code : String} (hcode : code = "\x1b[" ++ parameters ++ "m")
    (h : (ofString parameters).all isColourParameter = true) : IsColour code := by
  rw [IsColour, hcode, ofString_append, ofString_append, List.append_assoc]
  exact .code (List.all_eq_true.mp h) .nil

theorem IsColour.append {code code' : String} (h : IsColour code) (h' : IsColour code') :
    IsColour (code ++ code') := by
  rw [IsColour, ofString_append]
  exact Coloured.append h h'

end Text

open Text

namespace Highlight

theorem isColour_reset : IsColour reset :=
  isColour "39;49;00" rfl (by decide)

theorem isColour_of_colour? {kind : TokenKind} {code : String} (h : kind.colour? = some code) :
    IsColour code := by
  have herror : IsColour ("\x1b[04m" ++ "\x1b[91m") :=
    (isColour "04" rfl (by decide)).append (isColour "91" rfl (by decide))
  cases kind with
  | text | name | operator | punctuation => cases h
  | error =>
      cases h
      exact herror
  | lineComment | blockComment | whitespace =>
      cases h
      exact isColour "37" rfl (by decide)
  | keyword | constant | declaration | structural | modifier | integer | float =>
      cases h
      exact isColour "34" rfl (by decide)
  | decorator =>
      cases h
      exact isColour "90" rfl (by decide)
  | string | escape =>
      cases h
      exact isColour "33" rfl (by decide)

-- A colour that a kind of token has, or none.
def IsShade (colour : Option String) : Prop :=
  ∀ code, colour = some code → IsColour code

theorem coloured_chars {cs : List Char} (h : '\x1b' ∉ cs) : Coloured (ofChars cs) (ofChars cs) := by
  refine .refl fun hmem => h ?_
  obtain ⟨c, hc, heq⟩ := List.mem_map.mp hmem
  cases heq
  exact hc

theorem coloured_paint {colour : Option String} (hcolour : IsShade colour) {cs : List Char}
    (hcs : '\x1b' ∉ cs) : Coloured (ofChars (paint colour cs)) (ofChars cs) := by
  cases colour with
  | none => exact coloured_chars hcs
  | some code =>
      have hpainted := (Coloured.append (hcolour code rfl) (coloured_chars hcs)).append isColour_reset
      rw [List.nil_append, List.append_nil] at hpainted
      rw [paint, ofChars, List.map_append, List.map_append]
      exact hpainted

theorem coloured_paintLine {colour : Option String} (hcolour : IsShade colour) (line : Text.Line)
    (h : '\x1b' ∉ line.content ++ line.ending) :
    Coloured (ofChars (paintLine colour line)) (ofChars (line.content ++ line.ending)) := by
  rw [paintLine]
  split
  next hending =>
    have hcontent : '\x1b' ∉ line.content := fun hmem => h (List.mem_append_left _ hmem)
    rw [hending, ofChars, ofChars, List.map_append, List.map_append]
    exact (coloured_paint hcolour hcontent).append (.point (by decide) .nil)
  next => exact coloured_paint hcolour h

theorem coloured_flatMap {α : Type} {f g : α → List Char} {items : List α}
    (h : ∀ a ∈ items, Coloured (ofChars (f a)) (ofChars (g a))) :
    Coloured (ofChars (items.flatMap f)) (ofChars (items.flatMap g)) := by
  induction items with
  | nil => exact .nil
  | cons a items ih =>
      obtain ⟨ha, hitems⟩ := List.forall_mem_cons.mp h
      rw [List.flatMap_cons, List.flatMap_cons, ofChars, ofChars, List.map_append, List.map_append]
      exact ha.append (ih hitems)

-- The lines of a text with their ends give the text.
theorem flatMap_cutLinesFrom (read cs : List Char) :
    (cutLinesFrom read cs).flatMap (fun line => line.content ++ line.ending) =
      read.reverse ++ cs := by
  fun_induction Text.cutLinesFrom read cs with
  | case1 read hread => simp [List.isEmpty_iff.mp hread]
  | case2 => simp
  | case3 read rest ih => simp [ih]
  | case4 read c rest _ _ ih => simp [ih]
  | case5 read c rest _ _ ih => simp [ih]

theorem coloured_paintToken {token : Token} (h : '\x1b' ∉ token.content) :
    Coloured (ofChars (paintToken token)) (ofChars token.content) := by
  have hlines := flatMap_cutLinesFrom [] token.content
  rw [List.reverse_nil, List.nil_append] at hlines
  rw [paintToken, cutLines]
  nth_rewrite 2 [← hlines]
  refine coloured_flatMap fun line hline => coloured_paintLine (fun _ => isColour_of_colour?) line ?_
  intro hmem
  exact h (hlines ▸ List.mem_flatMap.mpr ⟨line, hline, hmem⟩)

theorem cutLinesFrom_of_break {c : Char} (hc : isLineBreak c = true) (hreturn : c ≠ '\r')
    (read rest : List Char) :
    cutLinesFrom read (c :: rest) = ⟨read.reverse, [c]⟩ :: cutLinesFrom [] rest := by
  rw [cutLinesFrom.eq_def]
  split
  next heq => cases heq
  next heq =>
    cases heq
    exact absurd rfl hreturn
  next heq =>
    cases heq
    rw [hc, if_pos rfl]

-- A line feed at the end of a text is not coloured.
theorem exists_paint_lines {colour : Option String} (hcolour : IsShade colour) (cs read : List Char)
    (hescape : '\x1b' ∉ read.reverse ++ cs) (hreturn : '\r' ∉ cs) :
    ∃ front, (cutLinesFrom read (cs ++ ['\n'])).flatMap (paintLine colour) = front ++ ['\n'] ∧
      Coloured (ofChars front) (ofChars (read.reverse ++ cs)) := by
  induction cs generalizing read with
  | nil =>
      rw [List.append_nil] at hescape ⊢
      refine ⟨paint colour read.reverse, ?_, coloured_paint hcolour hescape⟩
      have hnil : cutLinesFrom [] [] = [] := rfl
      rw [List.nil_append, cutLinesFrom_lineFeed, hnil, List.flatMap_singleton, paintLine, if_pos rfl]
  | cons c cs ih =>
      rw [List.mem_cons, not_or] at hreturn
      have hsplit : read.reverse ++ c :: cs = (c :: read).reverse ++ cs := by simp
      cases hbreak : isLineBreak c with
      | false =>
          rw [List.cons_append, cutLinesFrom_of_not_break hbreak, hsplit]
          exact ih (c :: read) (hsplit ▸ hescape) hreturn.2
      | true =>
          rw [hsplit, List.reverse_cons, List.mem_append, not_or] at hescape
          obtain ⟨front, hfront, hcoloured⟩ := ih [] hescape.2 hreturn.2
          rw [List.cons_append, cutLinesFrom_of_break hbreak fun heq => hreturn.1 heq.symm]
          refine ⟨paintLine colour ⟨read.reverse, [c]⟩ ++ front, ?_, ?_⟩
          · rw [List.flatMap_cons, hfront, List.append_assoc]
          · have hline := coloured_paintLine hcolour ⟨read.reverse, [c]⟩ hescape.1
            simpa [ofChars] using hline.append hcoloured

-- The last token of a line holds the line feed behind it, and this is not coloured.
theorem exists_paint_tokens {tokens : List Token} {cs : List Char}
    (hcontent : tokens.flatMap (·.content) = cs ++ ['\n']) (hne : ∀ t ∈ tokens, t.content ≠ [])
    (hescape : '\x1b' ∉ cs) (hreturn : '\r' ∉ cs) :
    ∃ front, tokens.flatMap paintToken = front ++ ['\n'] ∧
      Coloured (ofChars front) (ofChars cs) := by
  rcases List.eq_nil_or_concat' tokens with rfl | ⟨more, last, rfl⟩
  · exact absurd hcontent (by simp)
  have hlast : last.content ≠ [] := hne last (by simp)
  obtain ⟨inside, c, hinside⟩ := (List.eq_nil_or_concat' last.content).resolve_left hlast
  rw [List.flatMap_append, List.flatMap_singleton, hinside, ← List.append_assoc] at hcontent
  obtain ⟨rfl, ⟨⟩⟩ := List.append_inj' hcontent rfl
  rw [List.mem_append, not_or] at hescape hreturn
  have hshade : IsShade last.kind.colour? := fun _ => isColour_of_colour?
  obtain ⟨front, hfront, hcoloured⟩ := exists_paint_lines hshade inside [] hescape.2 hreturn.2
  refine ⟨more.flatMap paintToken ++ front, ?_, ?_⟩
  · rw [List.flatMap_append, List.flatMap_singleton, paintToken, hinside, cutLines, hfront,
      List.append_assoc]
  · rw [ofChars, ofChars, List.map_append, List.map_append]
    refine Coloured.append (coloured_flatMap fun t ht => coloured_paintToken ?_) hcoloured
    exact fun hmem => hescape.1 (List.mem_flatMap.mpr ⟨t, ht, hmem⟩)

-- A line in colours is the line.
theorem coloured_line {cs : List Char} (hescape : '\x1b' ∉ cs) (hfeed : '\n' ∉ cs)
    (hreturn : '\r' ∉ cs) (hmark : cs.head? ≠ some '\ufeff') :
    Coloured (ofChars (line cs)) (ofChars cs) := by
  obtain ⟨front, hfront, hcoloured⟩ := exists_paint_tokens
    (content_tokens_line hfeed hreturn hmark) (fun _ => content_ne_nil) hescape hreturn
  have hplain : '\n' ∉ front := by
    intro hmem
    have hmem' : CodePoint.scalar '\n' ∈ ofChars cs :=
      hcoloured.mem_of_mem rfl (by decide) (List.mem_map_of_mem hmem)
    obtain ⟨c, hc, heq⟩ := List.mem_map.mp hmem'
    cases heq
    exact hfeed hc
  have hreverse : '\n' ∉ front.reverse := fun hmem => hplain (List.mem_reverse.mp hmem)
  have hline : line cs = front := by
    rw [line, hfront, List.reverse_append, List.reverse_singleton, List.singleton_append,
      List.dropWhile_cons_of_pos rfl, dropWhile_lineFeed hreverse, List.reverse_reverse]
  rwa [hline]

end Highlight

-- No text of the diagnostic holds an escape character.
structure Diagnostic.IsPlain (d : Diagnostic) : Prop where
  code : '\x1b' ∉ d.code.toList
  message : CodePoint.scalar '\x1b' ∉ d.message
  labels : ∀ label ∈ d.labels, '\x1b' ∉ label.span.file.toList ∧
    CodePoint.scalar '\x1b' ∉ label.message
  notes : ∀ note ∈ d.notes, CodePoint.scalar '\x1b' ∉ note

theorem escape_notMem_toString (n : Nat) : '\x1b' ∉ (toString n).toList := by
  have hlist : (toString n).toList = Nat.toDigits 10 n := by simp
  rw [hlist]
  intro hmem
  cases Nat.isDigit_of_mem_toDigits (by decide) (by decide) hmem

theorem Severity.isColour (severity : Severity) : IsColour severity.colour := by
  cases severity with
  | error => exact Text.isColour "1;31" rfl (by decide)
  | warning => exact Text.isColour "1;33" rfl (by decide)
  | note => exact Text.isColour "1;36" rfl (by decide)

namespace Renderer

variable {lines : String → Nat → Option (List Char)} {code : String} {t u : Text}

theorem coloured_painted (hcode : IsColour code) (h : Coloured t u) :
    Coloured ((⟨true, lines⟩ : Renderer).painted code t)
      ((⟨false, lines⟩ : Renderer).painted code u) := by
  have hplain : IsColour plain := Text.isColour "0" rfl (by decide)
  have hpainted := (Coloured.append hcode h).append hplain
  rw [List.nil_append, List.append_nil] at hpainted
  simpa [painted, Text.concat] using hpainted

theorem isColour_blue : IsColour blue :=
  Text.isColour "1;34" rfl (by decide)

theorem coloured_string {s : String} (h : '\x1b' ∉ s.toList) : Coloured s s :=
  Highlight.coloured_chars h

theorem coloured_barred {before : String} (hbefore : '\x1b' ∉ before.toList) (h : Coloured t u) :
    Coloured ((⟨true, lines⟩ : Renderer).barred before t)
      ((⟨false, lines⟩ : Renderer).barred before u) := by
  have hbar : Coloured (ofString before ++ ofString " |") (ofString before ++ ofString " |") :=
    (coloured_string hbefore).append (coloured_string (by decide))
  exact .flatten (.cons (coloured_string (by decide))
    (.cons (coloured_painted isColour_blue hbar) (.cons h .nil)))

theorem escape_notMem_gutter (n : Nat) : '\x1b' ∉ (gutter n).toList := by
  have hdigits := escape_notMem_toString n
  simp only [gutter, String.toList_append, String.toList_ofList, List.mem_append, not_or]
  refine ⟨fun hmem => ?_, hdigits⟩
  cases List.eq_of_mem_replicate hmem

theorem coloured_location {span : Span} (h : '\x1b' ∉ span.file.toList) :
    Coloured span.location span.location := by
  refine coloured_string ?_
  have heq : span.location =
    span.file ++ ":" ++ toString span.startLine ++ ":" ++ toString span.startCol := rfl
  have hline := escape_notMem_toString span.startLine
  have hcol := escape_notMem_toString span.startCol
  simp only [heq, String.toList_append, List.mem_append, not_or]
  exact ⟨⟨⟨⟨h, by decide⟩, hline⟩, by decide⟩, hcol⟩

theorem coloured_heading {d : Diagnostic} (hd : d.IsPlain) :
    Coloured ((⟨true, lines⟩ : Renderer).heading d) ((⟨false, lines⟩ : Renderer).heading d) := by
  have heq : s!"{d.severity.name}[{d.code}]" = d.severity.name ++ "[" ++ d.code ++ "]" := rfl
  have hname : '\x1b' ∉ d.severity.name.toList := by cases d.severity <;> decide
  have htitle : '\x1b' ∉ (s!"{d.severity.name}[{d.code}]").toList := by
    simp only [heq, String.toList_append, List.mem_append, not_or]
    exact ⟨⟨⟨hname, by decide⟩, hd.code⟩, by decide⟩
  have hmessage : Coloured (Text.concat [": ", d.message]) (Text.concat [": ", d.message]) :=
    .flatten (.cons (coloured_string (by decide)) (.cons (.refl hd.message) .nil))
  have hbold : IsColour bold := Text.isColour "1" rfl (by decide)
  exact .flatten (.cons (coloured_painted d.severity.isColour (coloured_string htitle))
    (.cons (coloured_painted hbold hmessage) .nil))

theorem coloured_noteLine {note : Text} (h : CodePoint.scalar '\x1b' ∉ note) :
    Coloured ((⟨true, lines⟩ : Renderer).noteLine note)
      ((⟨false, lines⟩ : Renderer).noteLine note) :=
  .flatten (.cons (coloured_string (by decide))
    (.cons (coloured_painted isColour_blue (coloured_string (by decide)))
      (.cons (coloured_string (by decide)) (.cons (.refl h) .nil))))

theorem coloured_replicate {c : Char} (n : Nat) (h : c ≠ '\x1b') :
    Coloured (ofChars (List.replicate n c)) (ofChars (List.replicate n c)) :=
  Highlight.coloured_chars fun hmem => h (List.eq_of_mem_replicate hmem).symm

theorem coloured_markerLines (severity : Severity) (label : Label) :
    List.Forall₂ Coloured ((⟨true, lines⟩ : Renderer).markerLines severity label)
      ((⟨false, lines⟩ : Renderer).markerLines severity label) := by
  have hmarker : (if label.style = .primary then '^' else '-') ≠ '\x1b' := by
    split <;> decide
  rw [markerLines, markerLines]
  split
  · refine .cons (coloured_barred (by decide) (.flatten ?_)) .nil
    exact .cons (coloured_string (by decide)) (.cons (coloured_replicate _ (by decide))
      (.cons (coloured_painted severity.isColour (coloured_replicate _ hmarker)) .nil))
  · exact .nil

-- What a source line has to be for nothing but its colours to change.
structure IsPlainLine (cs : List Char) : Prop where
  escape : '\x1b' ∉ cs
  lineFeed : '\n' ∉ cs
  carriageReturn : '\r' ∉ cs
  mark : cs.head? ≠ some '\ufeff'

theorem coloured_sourceLine {cs : List Char} (n : Nat) (hcs : IsPlainLine cs) :
    Coloured
      ((⟨true, lines⟩ : Renderer).barred (gutter n)
        (Text.concat [" ", (⟨true, lines⟩ : Renderer).shownLine cs]))
      ((⟨false, lines⟩ : Renderer).barred (gutter n)
        (Text.concat [" ", (⟨false, lines⟩ : Renderer).shownLine cs])) := by
  have hshown : Coloured ((⟨true, lines⟩ : Renderer).shownLine cs)
      ((⟨false, lines⟩ : Renderer).shownLine cs) :=
    Highlight.coloured_line hcs.escape hcs.lineFeed hcs.carriageReturn hcs.mark
  exact coloured_barred (escape_notMem_gutter n)
    (.flatten (.cons (coloured_string (by decide)) (.cons hshown .nil)))

theorem coloured_labelLines {severity : Severity} {label : Label}
    (hfile : '\x1b' ∉ label.span.file.toList) (hmessage : CodePoint.scalar '\x1b' ∉ label.message)
    (hline : ∀ cs, lines label.span.file label.span.startLine = some cs → IsPlainLine cs) :
    List.Forall₂ Coloured ((⟨true, lines⟩ : Renderer).labelLines severity label)
      ((⟨false, lines⟩ : Renderer).labelLines severity label) := by
  rw [labelLines, labelLines]
  refine List.rel_append (List.rel_append (List.rel_append ?place ?source)
    (coloured_markerLines severity label)) ?remark
  case place =>
    refine .cons (.flatten ?_) (.cons (coloured_barred (by decide) .nil) .nil)
    exact .cons (coloured_string (by decide))
      (.cons (coloured_painted isColour_blue (coloured_string (by decide)))
        (.cons (coloured_string (by decide)) (.cons (coloured_location hfile) .nil)))
  case source =>
    dsimp only
    cases hread : lines label.span.file label.span.startLine with
    | none => exact .nil
    | some cs => exact .cons (coloured_sourceLine _ (hline cs hread)) .nil
  case remark =>
    split
    · exact .nil
    · refine .cons (coloured_barred (by decide) (.flatten ?_)) .nil
      exact .cons (coloured_string (by decide))
        (.cons (coloured_painted severity.isColour (.refl hmessage)) .nil)

-- A rendering in colours is the plain one with colours in it.
theorem coloured_render {d : Diagnostic} (hd : d.IsPlain)
    (hlines : ∀ label ∈ d.labels, ∀ cs,
      lines label.span.file label.span.startLine = some cs → IsPlainLine cs) :
    Coloured ((⟨true, lines⟩ : Renderer).render d) ((⟨false, lines⟩ : Renderer).render d) := by
  refine .join (List.rel_append (.cons (coloured_heading hd) ?labels) ?notes) (by decide)
  case labels =>
    refine List.rel_flatten (List.forall₂_map_left_iff.mpr (List.forall₂_map_right_iff.mpr ?_))
    refine List.forall₂_same.mpr fun label hlabel => ?_
    obtain ⟨hfile, hmessage⟩ := hd.labels label hlabel
    exact coloured_labelLines hfile hmessage (hlines label hlabel)
  case notes =>
    refine List.forall₂_map_left_iff.mpr (List.forall₂_map_right_iff.mpr ?_)
    exact List.forall₂_same.mpr fun note hnote => coloured_noteLine (hd.notes note hnote)

end Renderer

-- The lines that files are cut into hold no character that ends a line.
theorem notMem_of_sourceLine? {fs : FileSystem} {file : String} {n : Nat} {cs : List Char}
    (h : fs.sourceLine? file n = some cs) {c : Char} (hc : isLineBreak c = true) : c ∉ cs := by
  intro hmem
  unfold FileSystem.sourceLine? at h
  split at h
  · obtain ⟨line, hline, rfl⟩ := List.mem_map.mp (List.mem_of_getElem? h)
    rw [not_break_of_mem_cutLinesFrom (List.forall_mem_nil _) hline c hmem] at hc
    cases hc
  · cases h

-- Leaving the colours out of a rendering gives the plain rendering, and the tokens of a line hold
-- the characters of the line, each once and in their order.
theorem rendering_without_colours_is_plain {fs : FileSystem} {d : Diagnostic} (hd : d.IsPlain)
    (hlines : ∀ label ∈ d.labels, ∀ cs,
      fs.sourceLine? label.span.file label.span.startLine = some cs →
        '\x1b' ∉ cs ∧ cs.head? ≠ some '\ufeff') :
    withoutColours ((⟨true, fs.sourceLine?⟩ : Renderer).render d) =
        (⟨false, fs.sourceLine?⟩ : Renderer).render d ∧
      ∀ line : List Char, '\n' ∉ line → '\r' ∉ line → line.head? ≠ some '\ufeff' →
        (Highlight.tokens line).flatMap (·.content) = line ++ ['\n'] ∧
          (∀ token ∈ Highlight.tokens line, token.content ≠ []) ∧
          ('\x1b' ∉ line → withoutColours (ofChars (Highlight.line line)) = ofChars line) := by
  refine ⟨Coloured.withoutColours_eq (Renderer.coloured_render hd ?_), ?_⟩
  · intro label hlabel cs hread
    obtain ⟨hescape, hmark⟩ := hlines label hlabel cs hread
    exact ⟨hescape, notMem_of_sourceLine? hread rfl, notMem_of_sourceLine? hread rfl, hmark⟩
  · intro line hfeed hreturn hmark
    refine ⟨Highlight.content_tokens_line hfeed hreturn hmark,
      fun _ => Highlight.content_ne_nil, fun hescape => ?_⟩
    exact (Highlight.coloured_line hescape hfeed hreturn hmark).withoutColours_eq

def openString : String := "é set x = \"open #[\n"

-- The shown line starts with a letter that no rule matches and ends inside a string.
theorem rendering_without_colours_is_plain_open_string :
    let fs := singleFile "a.crucible" openString
    let d : Diagnostic := ⟨.error, "E101", "expected a string",
      [.secondary ⟨"a.crucible", 1, 11, 1, 11⟩ "not closed"], ["parsing stopped here"]⟩
    fs.sourceLine? "a.crucible" 1 = some "é set x = \"open #[".toList ∧
      (Highlight.tokens "é set x = \"open #[".toList).flatMap (·.content) = openString.toList ∧
      (⟨true, fs.sourceLine?⟩ : Renderer).render d ≠ (⟨false, fs.sourceLine?⟩ : Renderer).render d ∧
      withoutColours ((⟨true, fs.sourceLine?⟩ : Renderer).render d) =
        (⟨false, fs.sourceLine?⟩ : Renderer).render d := by
  intro fs d
  have hsource : fs.sourceLine? "a.crucible" 1 = some "é set x = \"open #[".toList := by
    decide +kernel
  have hd : d.IsPlain := ⟨by decide, by decide, by decide, by decide⟩
  have hlines : ∀ label ∈ d.labels, ∀ cs,
      fs.sourceLine? label.span.file label.span.startLine = some cs →
        '\x1b' ∉ cs ∧ cs.head? ≠ some '\ufeff' := by
    intro label hlabel cs hread
    obtain rfl := List.mem_singleton.mp hlabel
    obtain rfl := Option.some.inj (hsource.symm.trans hread)
    decide
  have hrendering := rendering_without_colours_is_plain hd hlines
  refine ⟨hsource, ?_, by decide +kernel, hrendering.1⟩
  exact (hrendering.2 _ (by decide) (by decide) (by decide)).1

end CardLore
