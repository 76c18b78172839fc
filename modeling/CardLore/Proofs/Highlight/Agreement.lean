import CardLore.Proofs.Compilation.Leftover
import CardLore.Proofs.Highlight.Plain
import CardLore.Proofs.Source.Spans

namespace CardLore.Highlight

-- The feature leads to an error token.
def Feature.Fails : Feature → Prop
  | word w => ¬ Clear w
  | loose => True
  | buried => False

def Fails (s : Spot) (cs : List Char) : Prop :=
  ∃ feature ∈ outline s cs, feature.Fails

section

variable {cs rest : List Char} {s s' : Spot}

theorem not_fails_nil : ¬ Fails s [] := by
  rintro ⟨feature, hmem, -⟩
  cases hmem

theorem fails_congr (h : outline s cs = outline s' rest) : Fails s cs ↔ Fails s' rest := by
  rw [Fails, Fails, h]

theorem fails_cons {feature : Feature} (h : outline s cs = feature :: outline s' rest) :
    Fails s cs ↔ feature.Fails ∨ Fails s' rest := by
  simp only [Fails, h, List.mem_cons, or_and_right, exists_or, exists_eq_left]

end

def modesOf (inside : Bool) : List Mode :=
  if inside then [.decorator, .root] else [.root]

-- The tokens of the text hold an error just if its outline does, unless the text starts in the
-- middle of a word.
def Agrees (inside : Bool) (cs : List Char) : Prop :=
  ∀ before : Option Char,
    (inside = false → startsWithWord cs = false ∨ before.any Text.isWord = false) →
    .buried ∉ outline ⟨.text, inside⟩ cs →
      (Stumbles (modesOf inside) before cs ↔ Fails ⟨.text, inside⟩ cs)

theorem dropWhile_of_return_notMem {cs : List Char} (h : '\r' ∉ cs) :
    (cs.dropWhile fun c => !Trivia.isLineEnd c) = cs.dropWhile (· != '\n') := by
  induction cs with
  | nil => rfl
  | cons c cs ih =>
      obtain ⟨hc, hcs⟩ := not_or.mp (mt List.mem_cons.mpr h)
      have hline : (!Trivia.isLineEnd c) = (c != '\n') := by
        rw [Trivia.isLineEnd, beq_false_of_ne (Ne.symm hc), Bool.false_or]
        rfl
      rw [List.dropWhile_cons, List.dropWhile_cons, hline, ih hcs]

theorem isBlank_of_mem {c : Char} (h : c ∈ [' ', '\t', '\r', '\n']) :
    Text.isBlank c = true ∧ Text.isWord c = false := by
  have hall : ([' ', '\t', '\r', '\n'].all fun c => Text.isBlank c && !Text.isWord c) = true := by
    decide
  simpa using List.all_eq_true.mp hall c h

section

variable {cs rest : List Char} {inside inside' : Bool}

-- A step over a part of the text that adds nothing to the outline.
theorem Agrees.of_step (ih : Agrees inside' rest) {last : Option Char}
    (hlast : last.any Text.isWord = false)
    (houtline : outline ⟨.text, inside⟩ cs = outline ⟨.text, inside'⟩ rest)
    (hstep : ∀ before, Stumbles (modesOf inside) before cs ↔ Stumbles (modesOf inside') last rest) :
    Agrees inside cs := by
  intro before _ hburied
  rw [houtline] at hburied
  rw [fails_congr houtline]
  exact (hstep before).trans (ih last (fun _ => .inr hlast) hburied)

theorem agrees_trivia (h : TriviaPiece cs rest) (hreturn : '\r' ∉ cs) (ih : Agrees false rest) :
    Agrees false cs := by
  obtain ⟨front, -, houtline⟩ := outline_trivia false h
  rw [buriedIn_outside, List.nil_append] at houtline
  cases h with
  | @blank c _ hc =>
      obtain ⟨hblank, hword⟩ := isBlank_of_mem hc
      have hlast : (some c).any Text.isWord = false := hword
      exact ih.of_step hlast houtline fun before => stumbles_blank before hblank
  | @lineComment cs =>
      have hcs : '\r' ∉ cs := fun hmem =>
        hreturn (List.mem_cons_of_mem _ (List.mem_cons_of_mem _ hmem))
      rw [dropWhile_of_return_notMem hcs] at ih houtline
      exact ih.of_step rfl houtline fun before => stumbles_lineComment before cs
  | blockComment hcs =>
      exact ih.of_step rfl houtline fun before => stumbles_blockComment before hcs

theorem agrees_mark {c : Char} (hc : c ∈ marks) (hrest : rest.head? ≠ some '*')
    (ih : ∀ inside, Agrees inside rest) : Agrees false (c :: rest) := by
  have houtline := outline_mark hc hrest
  by_cases hhash : c = '#'
  · subst hhash
    cases hopens : opensAttribute rest with
    | true =>
        rw [hopens] at houtline
        exact (ih true).of_step rfl houtline fun before => stumbles_attribute before hopens
    | false =>
        rw [hopens] at houtline
        intro before _ _
        rw [fails_cons houtline]
        exact iff_of_true (stumbles_loose before hopens hrest) (.inl trivial)
  · have hinside : (c == '#' && opensAttribute rest) = false := by
      rw [beq_false_of_ne hhash, Bool.false_and]
    rw [hinside, if_neg fun h => hhash h.1, List.nil_append] at houtline
    have hstops : Stops (c :: rest) := .char (mem_stopChars_of_mark hc)
    have hlast : (some c).any Text.isWord = false := (facts_of_stops hstops).1
    exact (ih false).of_step hlast houtline fun before => stumbles_mark before hc hhash hrest

theorem agrees_word {w : List Char} (hne : w ≠ []) (hw : ∀ c ∈ w, isWordChar c = true)
    (hrest : Stops rest) (ih : Agrees false rest) : Agrees false (w ++ rest) := by
  intro before hbefore hburied
  have houtline := outline_word hne hw hrest
  rw [houtline] at hburied
  have hbehind := ih none (fun _ => .inr rfl) fun hmem => hburied (List.mem_cons_of_mem _ hmem)
  have hclear : Stumbles [.root] before w ↔ ¬ Clear w := by
    rw [clear_word_iff hw, not_not]
    refine stumbles_before .root fun _ => ?_
    rcases hbefore rfl with hword | hword
    · rw [startsWithWord_append hrest] at hword
      exact .inl hword
    · exact .inr hword
  rw [fails_cons houtline]
  exact (stumbles_word_append hw hrest before none).trans (or_congr hclear hbehind)

theorem agrees_outside (h : Front cs rest) (hreturn : '\r' ∉ cs)
    (ih : ∀ inside, Agrees inside rest) : Agrees false cs := by
  cases h with
  | trivia h => exact agrees_trivia h hreturn (ih false)
  | quoted hbody =>
      exact (ih false).of_step rfl (outline_quoted hbody false rest) fun before =>
        stumbles_quoted before hbody
  | arrow => exact (ih false).of_step rfl (outline_arrow false rest) stumbles_arrow
  | mark hc hrest => exact agrees_mark hc hrest ih
  | word hne hw hrest => exact agrees_word hne hw hrest (ih false)

-- Inside of an attribute all is passed over that neither ends it nor starts a string.
theorem agrees_passed {front : List Char} (hfront : ∀ c ∈ front, c ≠ ']' ∧ c ≠ '"')
    (houtline : outline ⟨.text, true⟩ (front ++ rest) = outline ⟨.text, true⟩ rest)
    (ih : Agrees true rest) : Agrees true (front ++ rest) :=
  ih.of_step rfl houtline fun before => stumbles_decorator_append hfront before none rest

theorem agrees_inside (h : Front cs rest) (ih : ∀ inside, Agrees inside rest) : Agrees true cs := by
  cases h with
  | trivia h =>
      obtain ⟨front, rfl, houtline⟩ := outline_trivia true h
      intro before hbefore hburied
      have hfront := ne_of_buried_notMem fun hmem =>
        hburied (houtline ▸ List.mem_append_left _ hmem)
      rw [buriedIn_eq_nil hfront, List.nil_append] at houtline
      exact agrees_passed hfront houtline (ih true) before hbefore hburied
  | quoted hbody =>
      exact (ih true).of_step rfl (outline_quoted hbody true rest) fun before =>
        stumbles_decorator_quoted hbody before none rest
  | arrow =>
      have hfront : ∀ c ∈ ['-', '>'], c ≠ ']' ∧ c ≠ '"' := by simp
      exact agrees_passed hfront (outline_arrow true rest) (ih true)
  | @mark c _ hc hrest =>
      have houtline := outline_mark_inside hc hrest
      by_cases hclose : c = ']'
      · subst hclose
        exact (ih false).of_step rfl houtline fun before => stumbles_decorator_close before rest
      · have hquote : c ≠ '"' := by
          rintro rfl
          exact absurd hc (by decide)
        have hfront : ∀ d ∈ [c], d ≠ ']' ∧ d ≠ '"' := List.forall_mem_singleton.mpr ⟨hclose, hquote⟩
        rw [bne_iff_ne.mpr hclose] at houtline
        exact agrees_passed hfront houtline (ih true)
  | word _ hw _ =>
      refine agrees_passed (fun c hc => ?_) (outline_word_inside hw rest) (ih true)
      exact ⟨ne_of_isWordChar (hw c hc) rfl, ne_of_isWordChar (hw c hc) rfl⟩

end

-- By induction on the length of the text, from one front to the next.
theorem agrees {cs : List Char} (h : Moves cs []) (hreturn : '\r' ∉ cs) (inside : Bool) :
    Agrees inside cs := by
  induction hn : cs.length using Nat.strong_induction_on generalizing cs inside with
  | _ n ih =>
      by_cases hne : cs = []
      · subst hne
        exact fun _ _ _ => iff_of_false not_stumbles_nil not_fails_nil
      obtain ⟨rest, hfront, hmoves⟩ := exists_front h hne
      obtain ⟨front, hfrontne, rfl⟩ := hfront.exists_append
      have hrest : ∀ inside, Agrees inside rest := by
        have hpos := List.length_pos_iff.mpr hfrontne
        rw [List.length_append] at hn
        exact fun inside => ih rest.length (by omega) hmoves
          (fun hmem => hreturn (List.mem_append_right front hmem)) inside rfl
      cases inside with
      | false => exact agrees_outside hfront hreturn hrest
      | true => exact agrees_inside hfront hrest

-- A source that can be read is made of tokens and trivia.
theorem moves_of_accepted {file : String} {source : List Char} {limit : Nat} {tree : FileTree}
    (h : ParsedFile.ofSource file source limit = .ok ⟨file, .ok tree⟩) : Moves source [] := by
  obtain ⟨-, s, pos, crossed, haccepted, hskip⟩ := ofSource_eq_tree_iff.mp h
  exact (Tracks.accepted haccepted).reach.moves.trans (skips_of_scan hskip).moves

-- A source that is read as a tree is cut into tokens without an error exactly if the sign and the
-- bracket of each attribute stand together and each of its words is cut so, as plain words are.
-- Sources with a bracket or a quote in a comment inside of an attribute are left out.
theorem accepted_source_cut_without_error_iff {file : String} {source : List Char} {limit : Nat}
    {tree : FileTree} (haccepted : ParsedFile.ofSource file source limit = .ok ⟨file, .ok tree⟩)
    (hburied : .buried ∉ features source) :
    (Clear source ↔ .loose ∉ features source ∧ ∀ w, .word w ∈ features source → Clear w) ∧
      ∀ w, IsPlain w → Clear w := by
  have hmoves := moves_prepare (moves_of_accepted haccepted)
  have hagrees : Stumbles [.root] none (prepare source) ↔ Fails ⟨.text, false⟩ (prepare source) :=
    agrees hmoves (return_notMem_prepare source) false none (fun _ => .inr rfl) hburied
  refine ⟨?_, fun w h => h.clear⟩
  rw [clear_iff, hagrees]
  constructor
  · intro hfails
    refine ⟨fun hloose => hfails ⟨.loose, hloose, trivial⟩, fun w hw => ?_⟩
    by_contra hnot
    exact hfails ⟨.word w, hw, hnot⟩
  · rintro ⟨hloose, hwords⟩ ⟨feature, hmem, hfails⟩
    cases feature with
    | word w => exact hfails (hwords w hmem)
    | loose => exact hloose hmem
    | buried => exact hfails

-- The bracket in the string does not end the attribute, and the key starts with no keyword.
def attributedVerb : List Char :=
  "#[k = \"]\" (* 1 *)]\r\nverb $draw-it \"V\" \"\" // card-x".toList

theorem accepted_source_cut_without_error_iff_attribute :
    ∃ tree, ParsedFile.ofSource "a.crucible" attributedVerb = .ok ⟨"a.crucible", .ok tree⟩ ∧
      features attributedVerb = [.word "verb".toList, .word "$draw-it".toList] ∧
      Clear attributedVerb := by
  obtain ⟨tree, htree, -⟩ := exists_tree_of_view "a.crucible" attributedVerb
    (·.declarations.length) 1 (by decide +kernel)
  have hfeatures : features attributedVerb = [.word "verb".toList, .word "$draw-it".toList] := by
    decide +kernel
  have hverb : IsPlain "verb".toList :=
    ⟨List.all_eq_true.mp (by decide), ⟨'v', rfl, by decide, by decide⟩, by decide +kernel⟩
  have hkey : IsPlain "$draw-it".toList :=
    ⟨List.all_eq_true.mp (by decide), ⟨'$', rfl, by decide, by decide⟩, by decide +kernel⟩
  have hburied : .buried ∉ features attributedVerb := by
    rw [hfeatures]
    decide
  obtain ⟨hiff, hclear⟩ := accepted_source_cut_without_error_iff htree hburied
  refine ⟨tree, htree, hfeatures, hiff.mpr ⟨?_, fun w hw => ?_⟩⟩
  · rw [hfeatures]
    decide
  · rw [hfeatures] at hw
    simp only [List.mem_cons, Feature.word.injEq, List.not_mem_nil, or_false] at hw
    rcases hw with rfl | rfl
    · exact hclear _ hverb
    · exact hclear _ hkey

-- The first part of the key is a keyword. It is a token, and the hyphen behind it is an error.
def keywordKey : List Char :=
  "verb card-x \"X\" \"\"".toList

theorem accepted_source_has_error_token :
    (∃ tree, ParsedFile.ofSource "a.crucible" keywordKey = .ok ⟨"a.crucible", .ok tree⟩) ∧
      ⟨.error, ['-']⟩ ∈ tokens keywordKey := by
  obtain ⟨tree, htree, -⟩ := exists_tree_of_view "a.crucible" keywordKey (·.declarations.length) 1
    (by decide +kernel)
  exact ⟨⟨tree, htree⟩, by decide +kernel⟩

end CardLore.Highlight
