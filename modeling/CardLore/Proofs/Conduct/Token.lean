import CardLore.Proofs.Comments.Word
import CardLore.Proofs.Conduct.Basic
import CardLore.Statement.Block

namespace CardLore

-- Behind trivia no block comment opens.
def AtToken (cs : List Char) : Prop :=
  ∀ inside, cs ≠ '(' :: '*' :: inside

theorem atToken_of_skip {newlines crossed : Bool} {pos last : Nat} {cs rest : List Char}
    (h : Trivia.skip newlines pos cs = .stopped last rest crossed) : AtToken rest := by
  have hscan := scansAlike newlines pos pos cs
  rw [h] at hscan
  generalize Trivia.skip newlines pos (stripComments cs) = other at hscan
  cases hscan with
  | stopped _ htoken => exact htoken

-- A comment that is not closed starts inside of the text.
theorem scan_unclosed_bounds {newlines crossed : Bool} {pos start : Nat} {cs : List Char}
    (h : Trivia.scan newlines .open pos crossed cs = .unclosed start) :
    pos ≤ start ∧ start ≤ pos + cs.length := by
  obtain ⟨pieces, rest, hrun, -, rfl⟩ := Trivia.exists_run_of_unclosed h
  rw [hrun.text, List.length_append]
  omega

theorem stripComments_bracket {rest : List Char} (h : AtToken ('(' :: rest)) :
    stripComments ('(' :: rest) = '(' :: stripComments rest := by
  obtain ⟨cs, hstrip, hhead⟩ := exists_stripsHead '(' rest
  cases hhead with
  | keep => exact hstrip
  | string hc => exact absurd hc (by decide)
  | lineComment hc => exact absurd hc (by decide)
  | blockComment _ hrest => exact absurd (congrArg ('(' :: ·) hrest) (h _)

-- A symbol that comments leave alone: the bracket that might open one, or plain characters.
def IsMark (text : String) : Prop :=
  text = "(" ∨ (text.toList.all fun c => decide (IsPlain c)) = true

instance : DecidablePred IsMark := fun _ => inferInstanceAs (Decidable (_ ∨ _))

theorem isPrefixOf_mark {text : String} (htext : IsMark text) {cs : List Char} (hcs : AtToken cs) :
    text.toList.isPrefixOf (stripComments cs) = text.toList.isPrefixOf cs := by
  rcases htext with rfl | hplain
  · rw [Bool.eq_iff_iff, List.isPrefixOf_iff_prefix, List.isPrefixOf_iff_prefix]
    constructor
    · rintro ⟨tail, htail⟩
      obtain ⟨rest, rfl⟩ := exists_head htail.symm (by decide)
      exact ⟨rest, rfl⟩
    · rintro ⟨rest, rfl⟩
      exact ⟨stripComments rest, (stripComments_bracket hcs).symm⟩
  · exact isPrefixOf_stripComments (isPlain_of_all hplain) cs

theorem stripComments_mark {text : String} (htext : IsMark text) {rest : List Char}
    (h : AtToken (text.toList ++ rest)) :
    stripComments (text.toList ++ rest) = text.toList ++ stripComments rest := by
  rcases htext with rfl | hplain
  · exact stripComments_bracket h
  · exact stripComments_append (isPlain_of_all hplain) rest

theorem isInert_of_all {cs : List Char} (h : (cs.all fun c => decide (IsInert c)) = true) :
    ∀ c ∈ cs, IsInert c :=
  fun c hc => of_decide_eq_true (List.all_eq_true.mp h c hc)

-- A symbol that opens and closes nothing.
structure IsMarker (text : String) : Prop where
  mem : text ∈ symbols
  isMark : IsMark text
  inert : text = "(" ∨ (text.toList.all fun c => decide (IsInert c)) = true

theorem isMarker_iff (text : String) : IsMarker text ↔ text ∈ symbols ∧ IsMark text ∧
    (text = "(" ∨ (text.toList.all fun c => decide (IsInert c)) = true) :=
  ⟨fun h => ⟨h.mem, h.isMark, h.inert⟩, fun h => ⟨h.1, h.2.1, h.2.2⟩⟩

instance : DecidablePred IsMarker := fun text => decidable_of_iff _ (isMarker_iff text).symm

theorem isInert_of_isKeyChar {c : Char} (h : isKeyChar c = true) : IsInert c := by
  intro hmem
  have hall : (['{', '}', '[', ']', '"', '/', '('].all fun c => !isKeyChar c) = true := by decide
  have hnot := List.all_eq_true.mp hall c hmem
  rw [h] at hnot
  cases hnot

theorem isInert_of_lowers {c d : Char} (h : Lowers c d) (hd : d.isLower = true) : IsInert c := by
  rcases h with ⟨-, rfl⟩ | ⟨rfl, -⟩
  · intro hmem
    have hall : (['{', '}', '[', ']', '"', '/', '('].all fun c => !c.toLower.isLower) = true := by
      decide
    have hnot := List.all_eq_true.mp hall c hmem
    rw [hd] at hnot
    cases hnot
  · decide

-- The characters that spell a word.
theorem spells_of_matchesWord {word : String} (hword : word ∈ keywords) {cs : List Char}
    (h : MatchesWord word cs) : Spells word (cs.take word.length) :=
  lowers_of_lowerFrom [] (fun _ hd => isLower_of_mem_keyword hword hd) h.1

theorem Spells.exists_lowers {word : String} {cs : List Char} (h : Spells word cs) :
    ∀ c ∈ cs, ∃ d ∈ word.toList, Lowers c d := by
  rw [Spells] at h
  generalize word.toList = letters at h
  induction h with
  | nil => exact List.forall_mem_nil _
  | @cons c d _ _ hcd _ ih =>
      refine List.forall_mem_cons.mpr ⟨⟨d, List.mem_cons_self, hcd⟩, fun e he => ?_⟩
      obtain ⟨d', hd', hlowers⟩ := ih e he
      exact ⟨d', List.mem_cons_of_mem d hd', hlowers⟩

theorem Spells.inert {word : String} (hword : word ∈ keywords) {cs : List Char}
    (h : Spells word cs) : ∀ c ∈ cs, IsInert c := by
  intro c hc
  obtain ⟨d, hd, hlowers⟩ := h.exists_lowers c hc
  exact isInert_of_lowers hlowers (isLower_of_mem_keyword hword hd)

theorem cons_eq_badEscape {point : CodePoint} {k n : Nat} {r : StringScan}
    (h : r.cons point k = .badEscape n) : ∃ m, r = .badEscape m ∧ n = k + m := by
  cases r with
  | closed | unclosed => cases h
  | badEscape m =>
      cases h
      exact ⟨m, rfl, rfl⟩

-- What is no escape is found inside of the text.
theorem badEscape_le {cs : List Char} {offset : Nat} (h : scanString cs = .badEscape offset) :
    offset ≤ cs.length := by
  fun_induction scanString cs generalizing offset with
  | case1 | case2 => cases h
  | case4 | case6 | case7 =>
      cases h
      simp only [List.length_cons]
      omega
  | case3 _ _ _ _ _ _ _ ih | case5 _ _ _ _ _ ih | case8 _ _ _ _ _ _ ih =>
      obtain ⟨m, hrest, rfl⟩ := cons_eq_badEscape h
      have hle := ih hrest
      simp only [List.length_cons]
      omega

theorem endsStatement_stripComments (cs : List Char) :
    Parser.endsStatement (stripComments cs) = Parser.endsStatement cs := by
  cases cs with
  | nil => rfl
  | cons c rest =>
      have hplain : ∀ c, (Trivia.isLineEnd c || c == '}') = true → IsPlain c := by
        intro c hc
        rcases Bool.or_eq_true_iff.mp hc with hc | hc
        · exact isPlain_of_isLineEnd hc
        · obtain rfl := eq_of_beq hc
          decide
      by_cases hc : (Trivia.isLineEnd c || c == '}') = true
      · rw [stripComments_plain (hplain c hc)]
        rfl
      · obtain ⟨d, tail, hstrip, hd⟩ := exists_head_of_not hplain hc rest
        rw [hstrip, Parser.endsStatement, Parser.endsStatement, Bool.eq_false_iff.mpr hc,
          Bool.eq_false_iff.mpr hd]

namespace Tandem

variable {α β : Type} {c : Start} {w : Settings} {depth pos : Nat} {e : Reach}
  {a b d cs token rest : List Char} {p q : Parser α} {P : α → Prop} {R : α → α → Prop}

-- What is left is looked at.
theorem ahead {f g : List Char → Parser α}
    (h : Tandem (.here pos cs) w depth e a b (f cs) (g (stripComments cs)) P R) :
    Tandem (.here pos cs) w depth e a b (Parser.ahead >>= f) (Parser.ahead >>= g) P R where
  fares _ _ _ hw hmeets hs := by
    rw [Parser.ahead_bind, Parser.ahead_bind, hmeets.2, hs.2]
    exact h.fares hw hmeets hs
  follows _ _ _ _ hctx hs ht hrest := by
    obtain ⟨rfl, rfl⟩ := hs
    have hnext := h.follows hctx ⟨rfl, rfl⟩ ht hrest
    rwa [← hrest] at hnext

theorem position {f g : Nat → Parser α}
    (h : ∀ pos', Tandem (.here pos cs) w depth e a b (f pos) (g pos') P R) :
    Tandem (.here pos cs) w depth e a b (Parser.position >>= f) (Parser.position >>= g) P R where
  fares _ _ _ hw hmeets hs := by
    rw [Parser.position_bind, Parser.position_bind, hmeets.1, hs.1]
    exact (h pos).fares hw hmeets hs
  follows _ _ _ _ hctx hs ht hrest := by
    rw [Parser.position_bind, Parser.position_bind, hs.1]
    exact (h _).follows hctx hs ht hrest

-- A mismatch further on, but inside of the text.
theorem failAt {n : Nat} (h : n ≤ cs.length) (expected expected' : String) (pos' : Nat) :
    Tandem (.here pos cs) w depth e a b (Parser.failAt (pos + n) expected)
      (Parser.failAt pos' expected') P R where
  fares ctx s s' _ _ hs := by
    obtain ⟨rfl, rfl⟩ := hs
    obtain ⟨furthest, hpos, hle⟩ := s.furthest.reaches_record (s.pos + n) expected
    exact .mismatch ⟨s.furthest.noted_record expected (Nat.add_le_add_left h s.pos), furthest, hpos,
      by omega⟩
  follows _ _ _ _ _ _ _ _ := .mismatch

-- A token is read from both texts.
theorem advance {O : List Char → Prop} (htoken : IsToken token) (hO : O token)
    (hcs : cs = token ++ rest) (hstrip : stripComments cs = token ++ stripComments rest)
    (hscans : ∀ pending, Scans (a ++ pending) cs (b ++ pending) rest) :
    Tandem (.here pos cs) w depth (.opens O) a b (Parser.advance token.length)
      (Parser.advance token.length) (fun _ => True) Eq where
  fares ctx s s' _ hmeets hs := by
    obtain ⟨rfl, rfl⟩ := hs
    obtain ⟨hrest, hpos⟩ := State.Takes.advance hcs
    have hdrop : (s.advance token.length).rest = rest :=
      List.append_cancel_left (hrest.symm.trans hcs)
    refine .ok trivial ⟨⟨⟨token, _, htoken, hO, ?_, .inl rfl⟩, ?_, .refl⟩, ?_⟩ ?_
    · rw [← hrest]
      exact .refl
    · rw [hpos, hrest, List.length_append, Nat.add_assoc]
    · rw [hdrop]
      exact hscans
    · exact ⟨congrArg (· + token.length) hmeets.1, congrArg (List.drop token.length) hmeets.2⟩
  follows ctx ctx' s t _ hs _ hrest := by
    obtain ⟨rfl, rfl⟩ := hs
    have hlength : 1 ≤ token.length := by
      obtain ⟨_, _, rfl, -⟩ := htoken.exists_cons
      exact Nat.succ_pos _
    have hds := hrest.trans hstrip
    refine .ok rfl ⟨?_, ?_, ?_⟩
    · change t.rest.drop token.length = stripComments (s.rest.drop token.length)
      rw [hds, hcs, List.drop_left, List.drop_left]
    · change (s.rest.drop token.length).length + 1 ≤ s.rest.length
      rw [hcs, List.drop_left, List.length_append]
      omega
    · change (t.rest.drop token.length).length + 1 ≤ t.rest.length
      rw [hds, List.drop_left, List.length_append]
      omega

-- A token that comments leave alone, and that opens and closes nothing.
theorem advance_plain (htoken : IsToken token) (hcs : cs = token ++ rest)
    (hplain : ∀ c ∈ token, IsPlain c) (hinert : ∀ c ∈ token, IsInert c) :
    Tandem (.here pos cs) w depth .closed a a (Parser.advance token.length)
      (Parser.advance token.length) (fun _ => True) Eq := by
  refine (advance (O := fun _ => True) htoken trivial hcs ?_ fun pending => ?_).closed
  · rw [hcs, stripComments_append hplain]
  · rw [hcs]
    exact scans_inert hinert _ rest

-- A word that opens and closes nothing either.
theorem advance_word (hne : token ≠ []) (hkey : ∀ c ∈ token, isKeyChar c = true)
    (hcs : cs = token ++ rest) :
    Tandem (.here pos cs) w depth .closed a a (Parser.advance token.length)
      (Parser.advance token.length) (fun _ => True) Eq :=
  advance_plain (.word hne fun c hc => .inl (hkey c hc)) hcs
    (fun c hc => isPlain_of_isKeyChar (hkey c hc)) fun c hc => isInert_of_isKeyChar (hkey c hc)

-- A parser that skips trivia first is at a token then.
theorem ofTriviaWith {f g : Bool → Parser α} (newlines : Bool)
    (h : ∀ crossed pos cs, AtToken cs →
      Tandem (.here pos cs) w depth e a b (f crossed) (g crossed) P R) :
    Tandem .any w depth e.behindTrivia a b (Parser.skipTriviaWith newlines >>= f)
      (Parser.skipTriviaWith newlines >>= g) P R where
  fares ctx s s' hw hmeets _ := by
    change Fares _ _ _ _ _ _ s (Parser.bind _ f ctx s) (Parser.bind _ f ctx s')
    rw [Parser.bind, Parser.bind, Parser.skipTriviaWith_eq, Parser.skipTriviaWith_eq, hmeets.1,
      hmeets.2]
    cases hskip : Trivia.skip newlines s.pos s.rest with
    | unclosed start =>
        obtain ⟨hstart, hend⟩ := scan_unclosed_bounds hskip
        obtain ⟨furthest, hpos, hreaches⟩ := s.furthest.reaches_record start _
        exact .mismatch ⟨s.furthest.noted_record _ hend, furthest, hpos, by omega⟩
    | stopped pos rest crossed =>
        have hskips := skips_of_scan hskip
        have hgets : Gets .any a a s { s with pos, rest } :=
          ⟨⟨hskips.moves, scan_position hskip, .refl⟩,
            fun pending => scans_of_scan hskip (a ++ pending)⟩
        have hmeets' : State.Meets { s with pos, rest } { s' with pos, rest } := ⟨rfl, rfl⟩
        have hnext := (h crossed pos rest (atToken_of_skip hskip)).fares hw hmeets' ⟨rfl, rfl⟩
        exact hnext.after hgets fun _ => Reach.Holds.behindTrivia hskips
  follows ctx ctx' s t hctx _ _ hrest := by
    have hscan := scansAlike newlines s.pos t.pos s.rest
    change Follows _ _ _ _ _ (Parser.bind _ f ctx s) (Parser.bind _ g ctx' t)
    rw [Parser.bind, Parser.bind, Parser.skipTriviaWith_eq, Parser.skipTriviaWith_eq]
    rw [← hrest] at hscan
    generalize hleft : Trivia.skip newlines s.pos s.rest = left at hscan
    generalize hright : Trivia.skip newlines t.pos t.rest = right at hscan
    cases hscan with
    | @stopped pos pos' rest crossed htoken =>
        have hnext := (h crossed pos rest htoken).follows (s := { s with pos, rest })
          (t := { t with pos := pos', rest := stripComments rest }) hctx ⟨rfl, rfl⟩ trivial rfl
        have hadvances : Advances 0 s.rest t.rest rest (stripComments rest) :=
          ⟨rfl, (scan_suffix hleft).length_le, (scan_suffix hright).length_le⟩
        refine (hnext.after hadvances).mono (fun _ _ h => h) ?_
        rw [Reach.gain_behindTrivia, Nat.zero_add]
    | unclosed => exact .mismatch

theorem ofTrivia {f g : Bool → Parser α}
    (h : ∀ crossed pos cs, AtToken cs →
      Tandem (.here pos cs) w depth e a b (f crossed) (g crossed) P R) :
    Tandem .any w depth e.behindTrivia a b (Parser.skipTrivia >>= f) (Parser.skipTrivia >>= g)
      P R where
  fares ctx _ _ hw hmeets hs := (ofTriviaWith ctx.newlines h).fares hw hmeets hs
  follows ctx ctx' s t hctx hs ht hrest := by
    have hmode : (Parser.skipTrivia >>= g) ctx' t =
        (Parser.skipTriviaWith ctx.newlines >>= g) ctx' t := by
      change Parser.bind _ g ctx' t = Parser.bind _ g ctx' t
      rw [Parser.bind, Parser.bind, Parser.skipTrivia, hctx.newlines]
    rw [hmode]
    exact (ofTriviaWith ctx.newlines h).follows hctx hs ht hrest

theorem ofTokenStart {f g : Nat → Parser α}
    (h : ∀ pos cs start', AtToken cs →
      Tandem (.here pos cs) w depth e a b (f pos) (g start') P R) :
    Tandem .any w depth e.behindTrivia a b (Parser.tokenStart >>= f) (Parser.tokenStart >>= g)
      P R := by
  rw [Parser.tokenStart, Parser.bind_assoc, Parser.bind_assoc]
  exact ofTrivia fun _ pos cs htoken => position fun start' => h pos cs start' htoken

theorem skipTriviaWith (newlines : Bool) :
    Behaves w depth .any a a (Parser.skipTriviaWith newlines) fun _ => True := by
  rw [← bind_pure_eq (Parser.skipTriviaWith newlines)]
  exact ofTriviaWith (e := .held) newlines fun _ _ _ _ => value trivial

-- Where a token starts need not be the same place in both texts.
theorem tokenStart :
    Tandem .any w depth .any a a Parser.tokenStart Parser.tokenStart (fun _ => True)
      fun _ _ => True := by
  rw [← bind_pure_eq Parser.tokenStart]
  exact ofTokenStart (e := .held) fun _ _ _ _ => pure trivial trivial

theorem symbol_of {text : String} (hmem : text ∈ symbols) (hmark : IsMark text)
    (hscans : ∀ pending rest, AtToken (text.toList ++ rest) →
      Scans (a ++ pending) (text.toList ++ rest) (b ++ pending) rest) :
    Tandem .any w depth (.opens (· = text.toList)) a b (Parser.symbol text) (Parser.symbol text)
      (fun _ => True) Eq := by
  refine ofTrivia (e := .opens _) fun _ pos cs htoken => ahead ?_
  rw [isPrefixOf_mark hmark htoken]
  refine ite (fun hfront => ?_) fun _ => fail _
  obtain ⟨rest, rfl⟩ := List.isPrefixOf_iff_prefix.mp hfront
  rw [← String.length_toList]
  exact advance (.symbol (List.mem_cons_of_mem _ hmem)) rfl rfl (stripComments_mark hmark htoken)
    fun pending => hscans pending rest htoken

theorem symbol_opens {text : String} (h : IsMarker text) :
    Behaves w depth (.opens (· = text.toList)) a a (Parser.symbol text) fun _ => True := by
  refine symbol_of h.mem h.isMark fun pending rest htoken => ?_
  rcases h.inert with rfl | hinert
  · refine (Passes.round fun hhead => ?_).scans
    obtain ⟨inside, rfl⟩ := List.head?_eq_some_iff.mp hhead
    exact htoken inside rfl
  · exact scans_inert (isInert_of_all hinert) _ rest

theorem symbol {text : String} (h : IsMarker text) :
    Behaves w depth .closed a a (Parser.symbol text) fun _ => True :=
  (symbol_opens h).closed

theorem isMark_of_bracket {text : String} {c d : Char} (hpair : (c, d) ∈ brackets)
    (htext : text.toList = [c] ∨ text.toList = [d]) : IsMark text := by
  have hall : ∀ bracket ∈ brackets, IsPlain bracket.1 ∧ IsPlain bracket.2 := by decide
  obtain ⟨hc, hd⟩ := hall _ hpair
  right
  rcases htext with htext | htext <;> simpa [htext]

theorem symbol_open {text : String} {c d : Char} (hmem : text ∈ symbols)
    (htext : text.toList = [c]) (hpair : (c, d) ∈ brackets) :
    Tandem .any w depth .closed a (d :: a) (Parser.symbol text) (Parser.symbol text)
      (fun _ => True) Eq := by
  refine (symbol_of hmem (isMark_of_bracket hpair (.inl htext)) fun pending rest _ => ?_).closed
  rw [htext]
  exact (Passes.opening hpair).scans

theorem symbol_close {text : String} {c d : Char} (hmem : text ∈ symbols)
    (htext : text.toList = [d]) (hpair : (c, d) ∈ brackets) :
    Tandem .any w depth .closed (d :: a) a (Parser.symbol text) (Parser.symbol text)
      (fun _ => True) Eq := by
  refine (symbol_of hmem (isMark_of_bracket hpair (.inr htext)) fun pending rest _ => ?_).closed
  rw [htext]
  exact (Passes.closing (List.mem_map_of_mem hpair)).scans

theorem lookingAt {text : String} (h : IsMark text) :
    Behaves w depth .held a a (Parser.lookingAt text) fun _ => True := by
  refine lookahead (e := .any) (b := a) (ofTrivia (e := .held) fun _ pos cs htoken => ahead ?_)
  rw [isPrefixOf_mark h htoken]
  exact value trivial

-- Whether an attempt succeeds is the same for both texts.
theorem found (h : Tandem c w depth .closed a a p q P Eq) :
    Tandem c w depth .held a a (do return (← Parser.attempt p).isSome : Parser Bool)
      (do return (← Parser.attempt q).isSome) (fun _ => True) Eq :=
  h.attempt.keep fun _ _ => value trivial

theorem trySymbol {text : String} (h : IsMarker text) :
    Behaves w depth .held a a (Parser.trySymbol text) fun _ => True :=
  (symbol h).found

theorem keyword_opens {word : String} (hword : word ∈ keywords) :
    Behaves w depth (.opens (Spells word)) a a (Parser.keyword word) fun _ => True := by
  refine ofTrivia (e := .opens _) fun _ pos cs _ => ahead ?_
  change Tandem _ _ _ _ _ _
    (if MatchesWord word cs then Parser.advance word.length else Parser.fail s!"'{word}'")
    (if MatchesWord word (stripComments cs) then Parser.advance word.length
      else Parser.fail s!"'{word}'") _ _
  simp only [matchesWord_stripComments hword]
  refine ite (fun hmatches => ?_) fun _ => fail _
  have hspells := spells_of_matchesWord hword hmatches
  have hplain := isPlain_of_lower hword hmatches.1
  obtain ⟨rest, hcs⟩ : cs.take word.length <+: cs := List.take_prefix _ _
  generalize cs.take word.length = token at hspells hplain hcs
  subst hcs
  rw [← String.length_toList, ← hspells.length_eq]
  exact advance (.keyword hword hspells) hspells rfl (stripComments_append hplain _)
    fun pending => scans_inert (hspells.inert hword) _ _

theorem keyword {word : String} (hword : word ∈ keywords) :
    Behaves w depth .closed a a (Parser.keyword word) fun _ => True :=
  (keyword_opens hword).closed

theorem tryKeyword {word : String} (hword : word ∈ keywords) :
    Behaves w depth .held a a (Parser.tryKeyword word) fun _ => True :=
  (keyword hword).found

theorem key : Behaves w depth .closed a a Parser.key Key.Valid := by
  refine ofTrivia (e := .closed) fun _ pos cs _ => ahead ?_
  rw [keyChars_stripComments]
  refine ite (fun _ => fail _) fun hempty => ?_
  obtain ⟨rest, hrest⟩ := keyChars_isPrefix cs
  have hne : keyChars cs ≠ [] := fun hnil => hempty (List.isEmpty_iff.mpr hnil)
  have hkey : ∀ c ∈ keyChars cs, isKeyChar c = true := fun c => isKeyChar_of_mem_keyChars
  exact (advance_word hne hkey hrest.symm).keep fun _ _ => value (valid_ofChars hne hkey)

-- Behind the quote that opens a string.
theorem quoted (start' : Nat) (inside : List Char) :
    Tandem (.here pos ('"' :: inside)) w depth .closed a a
      (match scanString inside with
        | .closed text length => do Parser.advance (1 + length); return text
        | .unclosed => Parser.failAt pos "'\"' to close string"
        | .badEscape offset => Parser.failAt (pos + 1 + offset) "a valid escape sequence")
      (match scanString (stripFrom .string inside) with
        | .closed text length => do Parser.advance (1 + length); return text
        | .unclosed => Parser.failAt start' "'\"' to close string"
        | .badEscape offset => Parser.failAt (start' + 1 + offset) "a valid escape sequence")
      (fun _ => True) Eq := by
  have hsame := scanString_stripFrom inside
  cases hscan : scanString inside with
  | closed text length =>
      rw [(hsame text length).mpr hscan]
      obtain ⟨body, after, hbody, rfl, rfl⟩ := exists_body_of_scanString hscan
      have hlength : 1 + (body.length + 1) = ('"' :: (body ++ ['"'])).length := by
        simp only [List.length_cons, List.length_append, List.length_nil]
        omega
      have hdrop : (body ++ '"' :: after).drop (body.length + 1) = after := by simp
      have hstrip : stripComments ('"' :: (body ++ '"' :: after)) =
          '"' :: (body ++ ['"']) ++ stripComments after := by
        change '"' :: stripFrom .string _ = _
        rw [stripFrom_inside hbody.staysInside]
        simp
      dsimp only
      rw [hlength]
      refine (advance (O := fun _ => True) (.quoted hbody) trivial (by simp) hstrip
        fun pending => ?_).closed.keep fun _ _ => value trivial
      have hpasses : Passes (a ++ pending, _) (a ++ pending, _) := .string hscan
      rw [hdrop] at hpasses
      exact hpasses.scans
  | unclosed | badEscape =>
      -- the other string is not closed either, for whichever reason
      cases hscan' : scanString (stripFrom .string inside) with
      | closed text length => cases hscan.symm.trans ((hsame text length).mp hscan')
      | unclosed | badEscape =>
          first
            | exact failAt (n := 0) (Nat.zero_le _) _ _ _
            | have hle := badEscape_le hscan
              dsimp only
              rw [Nat.add_assoc pos]
              exact failAt (by rw [List.length_cons]; omega) _ _ _

theorem string : Behaves w depth .closed a a Parser.string fun _ => True := by
  refine ofTokenStart (e := .closed) fun pos cs start' _ => ahead ?_
  split
  next inside _ => exact quoted start' inside
  next hno =>
    split
    next hstrip =>
      obtain ⟨rest, rfl⟩ := exists_head hstrip (by decide)
      exact absurd rfl (hno rest)
    next => exact fail _

theorem unsigned : Behaves w depth .closed a a Parser.unsigned fun n => IsCount n := by
  refine ofTrivia (e := .closed) fun _ pos cs _ => ahead ?_
  obtain ⟨htake, hdrop⟩ := takeWhile_stripComments (fun c => isPlain_of_isDigit) cs
  simp only [htake, hdrop, continuesKey_stripComments, startsArrow_stripComments]
  refine ite (fun _ => fail _) fun hdigits => ite (fun _ => fail _) fun hlength => ?_
  have hne : cs.takeWhile Char.isDigit ≠ [] :=
    fun hnil => hdigits (.inl (List.isEmpty_iff.mpr hnil))
  have hdigit : ∀ c ∈ cs.takeWhile Char.isDigit, c.isDigit = true := fun c => List.mem_takeWhile_imp
  have hkey : ∀ c ∈ cs.takeWhile Char.isDigit, isKeyChar c = true :=
    fun c hc => isKeyChar_of_isDigit (hdigit c hc)
  refine (advance_word hne hkey List.takeWhile_append_dropWhile.symm).keep fun _ _ => value ?_
  exact ⟨Int.natCast_nonneg _, isInteger_of_digits hdigit (Nat.not_lt.mp hlength) rfl⟩

theorem signed : Behaves w depth .closed a a Parser.signed IsInteger := by
  refine ofTrivia (e := .closed) fun _ pos cs _ => ahead ?_
  rw [leadingSign?_stripComments]
  cases hsign : Parser.leadingSign? cs with
  | none => exact (unsigned.keep fun n hn => value hn.2).narrow
  | some negative =>
      obtain ⟨sign, c, rest, rfl, hmark, -⟩ := exists_digit_of_leadingSign? hsign
      have htoken : IsToken [sign] ∧ IsPlain sign ∧ IsInert sign := by
        rcases hmark with rfl | rfl
        · exact ⟨.word nofun (List.forall_mem_singleton.mpr (.inl rfl)), by decide, by decide⟩
        · exact ⟨.word nofun (List.forall_mem_singleton.mpr (.inr rfl)), by decide, by decide⟩
      have hread : Tandem (.here pos (sign :: c :: rest)) w depth .closed a a (Parser.advance 1)
          (Parser.advance 1) (fun _ => True) Eq :=
        advance_plain htoken.1 rfl (List.forall_mem_singleton.mpr htoken.2.1)
          (List.forall_mem_singleton.mpr htoken.2.2)
      refine hread.next fun _ _ => unsigned.keep fun n hn => value ?_
      cases negative with
      | true =>
          rw [if_pos rfl, IsInteger, Int.natAbs_neg]
          exact hn.2
      | false => exact hn.2

-- A percent sign is read where it stands, and all goes on behind it.
theorem percentSign {k k' : Unit → Parser α}
    (h : Tandem .any w depth .held a a (k ()) (k' ()) P R) :
    Tandem .any w depth .held a a
      (Parser.ahead >>= fun cs => match cs with
        | '%' :: _ => Parser.advance 1 >>= k
        | _ => k ())
      (Parser.ahead >>= fun cs => match cs with
        | '%' :: _ => Parser.advance 1 >>= k'
        | _ => k' ()) P R := by
  refine ofStart fun pos cs _ => ahead ?_
  split
  next rest _ =>
    have hplain : IsPlain '%' := by decide
    have hinert : IsInert '%' := by decide
    have htoken : IsToken "%".toList := .symbol List.mem_cons_self
    have hread : Tandem (.here pos ('%' :: rest)) w depth .closed a a (Parser.advance 1)
        (Parser.advance 1) (fun _ => True) Eq :=
      advance_plain htoken rfl (List.forall_mem_singleton.mpr hplain)
        (List.forall_mem_singleton.mpr hinert)
    rw [stripComments_plain hplain]
    exact (hread.keep fun _ _ => h).held
  next hno =>
    split
    next hstrip =>
      obtain ⟨rest, rfl⟩ := exists_head hstrip (by decide)
      exact absurd rfl (hno rest)
    next => exact h.narrow

theorem percentage : Behaves w depth .closed a a Parser.percentage fun _ => True := by
  refine ofTokenStart (e := .closed) fun start _ start' _ => narrow (unsigned.keep fun n _ => ?_)
  refine percentSign ?_
  cases Probability.ofInt? n with
  | none => exact refuseFrom rfl start start'
  | some p => exact value trivial

theorem tryPercentage : Behaves w depth .held a a Parser.tryPercentage fun _ => True :=
  percentage.attempt.imp fun _ _ => trivial

-- Where a line ends, the trivia is not empty.
theorem length_lt_of_skip {c : Char} (hc : Trivia.isLineEnd c = true) {rest : List Char}
    {ctx : Context} {s s' : State} {crossed : Bool} (hs : s.rest = c :: rest)
    (h : Parser.skipTriviaWith true ctx s = .ok crossed s') :
    s'.rest.length + 1 ≤ s.rest.length := by
  obtain ⟨-, hslash, hopen⟩ := ne_of_isTrivia (.inl hc)
  rw [Parser.skipTriviaWith_eq, Trivia.skip, hs, scan_char (fun _ h => absurd h hslash)
    (fun _ h => absurd h hopen), if_pos hc, if_pos rfl] at h
  split at h
  next hscan =>
    cases h
    rw [hs]
    exact Nat.succ_le_succ (scan_suffix hscan).length_le
  next => cases h

-- From before a line end, trivia takes at least this character.
theorem skipLine {c : Char} (hc : Trivia.isLineEnd c = true) (rest : List Char) :
    Tandem (.here pos (c :: rest)) w depth .past a a (Parser.skipTriviaWith true)
      (Parser.skipTriviaWith true) (fun _ => True) Eq where
  fares ctx s s' hw hmeets hs := by
    have hskip : Behaves w depth .any a a (Parser.skipTriviaWith true) _ := skipTriviaWith true
    have hreply := hskip.fares hw hmeets trivial
    generalize hleft : Parser.skipTriviaWith true ctx s = r at hreply
    generalize Parser.skipTriviaWith true ctx s' = r' at hreply
    cases hreply with
    | ok _ hgets hmeets =>
        have hreach : Reach.past.Holds s.rest _ := ⟨hgets.reach, length_lt_of_skip hc hs.2 hleft⟩
        exact .ok trivial ⟨⟨hreach, hgets.position, hgets.noted⟩, hgets.scans⟩ hmeets
    | mismatch hmissed => exact .mismatch hmissed
    | fault hfault => exact .fault hfault
  follows ctx ctx' s t hctx hs _ hrest := by
    have ht : t.rest = c :: stripComments rest := by
      rw [hrest, hs.2, stripComments_plain (isPlain_of_isLineEnd hc)]
    have hskip : Behaves w depth .any a a (Parser.skipTriviaWith true) _ := skipTriviaWith true
    have hreply := hskip.follows hctx trivial trivial hrest
    generalize hleft : Parser.skipTriviaWith true ctx s = r at hreply
    generalize hright : Parser.skipTriviaWith true ctx' t = r' at hreply
    cases hreply with
    | ok hsame hadvances =>
        exact .ok hsame ⟨hadvances.stripped, length_lt_of_skip hc hs.2 hleft,
          length_lt_of_skip hc ht hright⟩
    | mismatch => exact .mismatch
    | fault => exact .fault
    | beyond h => exact .beyond h

theorem newline : Behaves w depth .past a a Parser.newline fun _ => True := by
  refine ofTriviaWith (e := .past) false fun _ pos cs _ => ahead ?_
  cases cs with
  | nil => exact fail _
  | cons c rest =>
      by_cases hend : Trivia.isLineEnd c = true
      · rw [stripComments_plain (isPlain_of_isLineEnd hend)]
        dsimp only
        rw [if_pos hend]
        exact (skipLine hend rest).keep fun _ _ => value trivial
      · obtain ⟨d, tail, hstrip, hend'⟩ :=
          exists_head_of_not (fun _ => isPlain_of_isLineEnd) hend rest
        rw [hstrip]
        dsimp only
        rw [if_neg hend, if_neg hend']
        exact fail _

theorem onlyTriviaLeft : Behaves w depth .held a a Parser.onlyTriviaLeft fun _ => True := by
  refine lookahead (e := .any) (b := a) (ofTriviaWith (e := .held) true fun _ pos cs _ => ahead ?_)
  refine pure trivial ?_
  rw [Bool.eq_iff_iff, List.isEmpty_iff, List.isEmpty_iff, stripComments_eq_nil_iff]

theorem terminated [Std.Refl R] (h : Tandem .any w depth e a a p q P R) :
    Tandem .any w depth .any a a (Parser.terminated p) (Parser.terminated q) P R := by
  refine h.bind (k := .any) fun v x hv hR => ofTriviaWith (e := .held) false fun _ pos cs _ => ?_
  refine ahead ?_
  rw [endsStatement_stripComments]
  exact ite (fun _ => pure hv hR) fun _ => fail _

-- The closing symbol of a list closes what is open around its items. Behind each item but the last
-- one a comma is read. An item may depend on the ones before it, and so may what is known of the
-- list.
theorem delimitedWith [Std.Refl R] {item item' : List α → Parser α} {I : List α → Prop}
    {close : String}
    (hclose : Tandem .any w depth .closed a b (Parser.symbol close) (Parser.symbol close)
      (fun _ => True) Eq) (hnil : I [])
    (hitem : ∀ seen seen', I seen → List.Forall₂ R seen seen' →
      Tandem .any w depth e a a (item seen) (item' seen') (fun v => I (seen ++ [v])) R) :
    Tandem .any w depth .closed a b (Parser.delimitedWith item close)
      (Parser.delimitedWith item' close) I (List.Forall₂ R) := by
  refine withNewlines true (hclose.found_bind (pure hnil .nil) ?_)
  refine loop (I := fun seen seen' => I seen ∧ List.Forall₂ R seen seen')
    (Parser.delimitedFrom item close) (Parser.delimitedFrom item' close) ?_ ⟨hnil, .nil⟩
  rintro m n ih seen seen' ⟨hI, hseen⟩
  refine ((hitem seen seen' hI hseen).narrow.bindTo (k := .closed) (.stay _ _ _)
    fun v x hv hR => ?_).reach (.andThen_closed e)
  have hseen' : List.Forall₂ R (seen ++ [v]) (seen' ++ [x]) := List.rel_append hseen (.cons hR .nil)
  refine hclose.narrow.found_bind (pure hv hseen') ?_
  have hcomma : Behaves w depth .closed a a (Parser.symbol ",") fun _ => True := symbol (by decide)
  exact hcomma.narrow.bindTo (k := .closed) (.below m n) fun _ _ _ _ => ih _ _ ⟨hv, hseen'⟩

theorem delimited [Std.Refl R] {close : String}
    (hclose : Tandem .any w depth .closed a b (Parser.symbol close) (Parser.symbol close)
      (fun _ => True) Eq) (h : Tandem .any w depth e a a p q P R) :
    Tandem .any w depth .closed a b (Parser.delimited p close) (Parser.delimited q close)
      (fun vs => ∀ v ∈ vs, P v) (List.Forall₂ R) :=
  delimitedWith hclose nofun fun _ _ hseen _ => h.imp fun _ hv => forall_mem_concat hseen hv

-- A list inside of round brackets.
theorem delimited_round [Std.Refl R] (h : Tandem .any w depth e a a p q P R) :
    Tandem .any w depth .closed a a (Parser.delimited p ")") (Parser.delimited q ")")
      (fun vs => ∀ v ∈ vs, P v) (List.Forall₂ R) :=
  delimited (symbol (by decide)) h

-- Behind each statement but the last one a line ends.
theorem statements [Std.Refl R] (h : Tandem .any w depth e a a p q P R) :
    Tandem .any w depth .any a a
      (fun ctx s => Parser.statementsUpTo p (s.rest.length + 1) ctx s)
      (fun ctx s => Parser.statementsUpTo q (s.rest.length + 1) ctx s)
      (fun vs => ∀ v ∈ vs, P v) (List.Forall₂ R) := by
  refine loop (fun bound (_ : Unit) => Parser.statementsUpTo p bound)
    (fun bound _ => Parser.statementsUpTo q bound) (I := fun _ _ => True) (i := ()) (j := ()) ?_
    trivial
  intro m n ih _ _ _
  have hbrace : Behaves w depth .held a a (Parser.lookingAt "\x7d") fun _ => True :=
    lookingAt (by decide)
  refine hbrace.narrow.bindTo (k := .any) (.stay _ _ _) fun found _ _ hfound => ?_
  subst hfound
  refine ite (fun _ => (pure nofun .nil).any) fun _ => ?_
  refine h.narrow.bindTo (k := .any) (.stay _ _ _) fun v x hv hR => ?_
  refine hbrace.narrow.bindTo (k := .any) (.stay _ _ _) fun found _ _ hfound => ?_
  subst hfound
  refine ite (fun _ => (pure (List.forall_mem_singleton.mpr hv) (.cons hR .nil)).any) fun _ => ?_
  refine newline.narrow.bindTo (k := .any) (.below m n) fun _ _ _ _ => ?_
  refine (ih () () trivial).keep_bind fun vs xs hvs hRs => ?_
  exact pure (List.forall_mem_cons.mpr ⟨hv, hvs⟩) (.cons hR hRs)

-- What is open around the statements is closed behind them.
theorem block [Std.Refl R] {others : List (Parser α)}
    (hp : Tandem .any w depth e ('}' :: a) ('}' :: a) p p P R)
    (hothers : ∀ o ∈ others, Tandem .any w depth e ('}' :: a) ('}' :: a) o o P R) :
    Tandem .any w depth .closed a a (Parser.block p others) (Parser.block p others)
      (fun vs => ∀ v ∈ vs, P v) (List.Forall₂ R) := by
  have hstatement := choice hp.terminated
    (List.forall_mem_map.mpr fun o ho => (hothers o ho).terminated)
  refine (symbol_open (d := '}') (by decide) rfl (by decide)).next fun _ _ => ?_
  refine next_bind (withNewlines false ((skipTriviaWith true).any_next fun _ _ =>
    hstatement.statements)) fun vs xs hvs hRs => ?_
  exact (symbol_close (c := '{') (by decide) rfl (by decide)).keep fun _ _ => pure hvs hRs

end Tandem

end CardLore
