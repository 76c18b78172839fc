import CardLore.Proofs.Reading.Characters

namespace CardLore

-- The lexemes that are left when trivia is skipped.
def next (newlines : Bool) : List Lexeme → List Lexeme
  | .lineEnd :: ls => if newlines then next newlines ls else .lineEnd :: ls
  | ls => ls

theorem next_lineEnd (ls : List Lexeme) : next true (.lineEnd :: ls) = next true ls := rfl

theorem next_false (ls : List Lexeme) : next false ls = ls := by
  unfold next
  split <;> rfl

-- The text writes the lexemes and starts with the first of them.
inductive Starts : List Lexeme → List Char → Prop
  | nil : Starts [] []
  | lineEnd {ls : List Lexeme} {cs : List Char} (h : Written ls cs) :
      Starts (.lineEnd :: ls) ('\n' :: cs)
  | lexeme {l : Lexeme} {ls : List Lexeme} {text cs : List Char} (hl : l.Spelled text)
      (hcs : Separated cs) (h : Written ls cs) : Starts (l :: ls) (text ++ cs)

theorem Starts.written {ls : List Lexeme} {cs : List Char} (h : Starts ls cs) : Written ls cs := by
  cases h with
  | nil => exact .nil
  | lineEnd h => exact .lineEnd h
  | lexeme hl hcs h => exact .lexeme hl hcs h

theorem scan_blank (newlines : Bool) (pos : Nat) (crossed : Bool) (cs : List Char) :
    Trivia.scan newlines .open pos crossed (' ' :: cs) =
      Trivia.scan newlines .open (pos + 1) crossed cs := by
  simp [Trivia.scan, Trivia.isLineEnd, Trivia.isSpace]

theorem scan_lineEnd (newlines : Bool) (pos : Nat) (crossed : Bool) (cs : List Char) :
    Trivia.scan newlines .open pos crossed ('\n' :: cs) =
      if newlines then Trivia.scan newlines .open (pos + 1) true cs
      else .stopped pos ('\n' :: cs) crossed := by
  simp [Trivia.scan, Trivia.isLineEnd]

theorem not_trivia_of_isKeyChar {c : Char} (h : isKeyChar c = true) :
    Trivia.isLineEnd c = false ∧ Trivia.isSpace c = false ∧ c ≠ '/' ∧ c ≠ '(' := by
  refine ⟨?_, ?_, ?_, ?_⟩
  · rw [Trivia.isLineEnd, Bool.or_eq_false_iff, beq_eq_false_iff_ne, beq_eq_false_iff_ne]
    constructor <;> rintro rfl <;> exact absurd h (by decide)
  · rw [Trivia.isSpace, Bool.or_eq_false_iff, beq_eq_false_iff_ne, beq_eq_false_iff_ne]
    constructor <;> rintro rfl <;> exact absurd h (by decide)
  · rintro rfl
    exact absurd h (by decide)
  · rintro rfl
    exact absurd h (by decide)

-- No lexeme starts with trivia. An opening bracket is a lexeme of its own.
theorem Lexeme.Spelled.not_trivia {l : Lexeme} {c : Char} {tail : List Char}
    (hl : l.Spelled (c :: tail)) :
    Trivia.isLineEnd c = false ∧ Trivia.isSpace c = false ∧ c ≠ '/' ∧ (c = '(' → tail = []) := by
  have hkeys : isKeyChar c = true → Trivia.isLineEnd c = false ∧ Trivia.isSpace c = false ∧
      c ≠ '/' ∧ (c = '(' → tail = []) := by
    intro hc
    obtain ⟨hline, hspace, hslash, hopen⟩ := not_trivia_of_isKeyChar hc
    exact ⟨hline, hspace, hslash, fun h => absurd h hopen⟩
  cases l with
  | word w => exact hkeys (isKeyChar_of_spelled_word hl c List.mem_cons_self)
  | key k => exact hkeys (isKeyChar_of_spelled_key hl c List.mem_cons_self)
  | number n => exact hkeys (isKeyChar_of_spelled_number hl c List.mem_cons_self)
  | symbol s =>
      obtain ⟨d, ds, hchars, hclass⟩ := exists_head_symbol
        (p := fun c tail => Trivia.isLineEnd c = false ∧ Trivia.isSpace c = false ∧ c ≠ '/' ∧
          (c = '(' → tail = [])) (by decide) hl.1
      obtain ⟨rfl, rfl⟩ := List.cons.inj (hl.2.trans hchars)
      exact of_decide_eq_true hclass
  | text t =>
      obtain rfl : c = '"' := (List.cons.inj hl).1
      exact ⟨rfl, rfl, by decide, fun h => absurd h (by decide)⟩
  | percent p =>
      obtain ⟨digits, heq, hd⟩ := hl
      obtain ⟨d, ds, rfl⟩ := List.exists_cons_of_ne_nil hd.nonempty
      obtain rfl : c = d := (List.cons.inj heq).1
      exact hkeys (isKeyChar_of_isDigit (hd.digit c List.mem_cons_self))
  | lineEnd => cases hl

theorem scan_stop {c : Char} (cs : List Char) (hline : Trivia.isLineEnd c = false)
    (hspace : Trivia.isSpace c = false) (hslash : c ≠ '/') (hopen : c = '(' → cs.head? ≠ some '*')
    (newlines : Bool) (pos : Nat) (crossed : Bool) :
    Trivia.scan newlines .open pos crossed (c :: cs) = .stopped pos (c :: cs) crossed := by
  rw [Trivia.scan]
  · simp [hline, hspace]
  · nofun
  · nofun
  · exact fun _ _ h => absurd h hslash
  · intro after _ hc hstar
    exact hopen hc (by rw [hstar]; rfl)

-- Trivia ends at a lexeme. An opening bracket starts no comment, since a gap follows it.
theorem scan_spelled {l : Lexeme} {text rest : List Char} (hl : l.Spelled text)
    (hrest : Separated rest) (newlines : Bool) (pos : Nat) (crossed : Bool) :
    Trivia.scan newlines .open pos crossed (text ++ rest) =
      .stopped pos (text ++ rest) crossed := by
  obtain ⟨c, tail, rfl⟩ := List.exists_cons_of_ne_nil hl.ne_nil
  obtain ⟨hline, hspace, hslash, hopen⟩ := hl.not_trivia
  rw [List.cons_append]
  refine scan_stop _ hline hspace hslash (fun hc => ?_) newlines pos crossed
  rw [hopen hc, List.nil_append]
  cases rest with
  | nil => nofun
  | cons d rest => rcases hrest with rfl | rfl <;> simp

-- Skipping trivia leads to the next lexeme.
theorem skip_written {ls : List Lexeme} {cs : List Char} (h : Written ls cs) (newlines : Bool)
    (pos : Nat) (crossed : Bool) :
    ∃ pos' cs' crossed', Trivia.scan newlines .open pos crossed cs = .stopped pos' cs' crossed' ∧
      Starts (next newlines ls) cs' := by
  induction h generalizing pos crossed with
  | nil => exact ⟨pos, [], crossed, rfl, .nil⟩
  | blank _ ih =>
      rw [scan_blank]
      exact ih _ _
  | lineEnd h ih =>
      rw [scan_lineEnd]
      cases newlines with
      | false => exact ⟨pos, _, crossed, rfl, .lineEnd h⟩
      | true => exact ih _ _
  | @lexeme l ls text cs hl hcs h _ =>
      refine ⟨pos, _, crossed, scan_spelled hl hcs newlines pos crossed, ?_⟩
      have hnext : next newlines (l :: ls) = l :: ls := by
        cases l with
        | lineEnd => cases hl
        | _ => rfl
      rw [hnext]
      exact .lexeme hl hcs h

theorem skipTriviaWith_written {ls : List Lexeme} {s : State} (h : Written ls s.rest)
    (newlines : Bool) (ctx : Context) :
    ∃ crossed s', Parser.skipTriviaWith newlines ctx s = .ok crossed s' ∧
      Starts (next newlines ls) s'.rest := by
  obtain ⟨pos', cs', crossed', hscan, hstarts⟩ := skip_written h newlines s.pos false
  exact ⟨crossed', { s with pos := pos', rest := cs' }, by
    simp only [Parser.skipTriviaWith, Trivia.skip, hscan], hstarts⟩

theorem reads_skipTriviaWith (newlines inside : Bool) (ls : List Lexeme) :
    Reads limit (Parser.skipTriviaWith inside) newlines ls (next inside ls) fun _ => True := by
  intro ctx s _ hs
  obtain ⟨crossed, s', hskip, hstarts⟩ := skipTriviaWith_written hs inside ctx
  exact ⟨crossed, s', hskip, hstarts.written, trivial⟩

section

variable {α : Type} {limit : Nat} {newlines : Bool} {ls rest : List Lexeme} {P : α → Prop}

-- A parser that skips trivia first is judged by what it does at the next lexeme.
theorem Reads.ofStarts {p : Parser α}
    (h : ∀ ctx s, ctx.newlines = newlines ∧ ctx.limit = limit → Starts (next newlines ls) s.rest →
      ∃ value next, p ctx s = .ok value next ∧ Written rest next.rest ∧ P value) :
    Reads limit (do let _ ← Parser.skipTrivia; p) newlines ls rest P := by
  intro ctx s hctx hs
  obtain ⟨crossed, s', hskip, hstarts⟩ := skipTriviaWith_written hs newlines ctx
  obtain ⟨value, last, hp, hlast, hP⟩ := h ctx s' hctx hstarts
  refine ⟨value, last, ?_, hlast, hP⟩
  change Parser.bind Parser.skipTrivia (fun _ => p) ctx s = _
  rw [Parser.bind, Parser.skipTrivia, hctx.1, hskip]
  exact hp

theorem Mismatches.ofStarts {p : Parser α}
    (h : ∀ ctx s, ctx.newlines = newlines ∧ ctx.limit = limit → Starts (next newlines ls) s.rest →
      ∃ pos expected furthest, p ctx s = .mismatch pos expected furthest) :
    Mismatches limit (do let _ ← Parser.skipTrivia; p) newlines ls := by
  intro ctx s hctx hs
  obtain ⟨crossed, s', hskip, hstarts⟩ := skipTriviaWith_written hs newlines ctx
  obtain ⟨pos, expected, furthest, hp⟩ := h ctx s' hctx hstarts
  refine ⟨pos, expected, furthest, ?_⟩
  change Parser.bind Parser.skipTrivia (fun _ => p) ctx s = _
  rw [Parser.bind, Parser.skipTrivia, hctx.1, hskip]
  exact hp

-- The same for a parser that looks ahead to choose what to do.
theorem Reads.ofAhead {f : List Char → Parser α} {p : Parser α}
    (hp : Reads limit p newlines (next newlines ls) rest P)
    (h : ∀ cs, Starts (next newlines ls) cs → f cs = p) :
    Reads limit (do let _ ← Parser.skipTrivia; let cs ← Parser.ahead; f cs) newlines ls rest P := by
  refine Reads.ofStarts fun ctx s hctx hs => ?_
  obtain ⟨value, last, hv, hlast, hP⟩ := hp ctx s hctx hs.written
  refine ⟨value, last, ?_, hlast, hP⟩
  rw [← hv, ← h s.rest hs]
  rfl

-- The same for a parser that asks where the lexeme starts.
theorem Reads.ofTokenStart {p : Nat → Parser α}
    (h : ∀ ctx s, ctx.newlines = newlines ∧ ctx.limit = limit → Starts (next newlines ls) s.rest →
      ∃ value next, p s.pos ctx s = .ok value next ∧ Written rest next.rest ∧ P value) :
    Reads limit (Parser.tokenStart >>= p) newlines ls rest P := by
  intro ctx s hctx hs
  obtain ⟨crossed, s', hskip, hstarts⟩ := skipTriviaWith_written hs newlines ctx
  obtain ⟨value, last, hp, hlast, hP⟩ := h ctx s' hctx hstarts
  have hstart : Parser.tokenStart ctx s = .ok s'.pos s' := by
    change Parser.bind Parser.skipTrivia (fun _ => Parser.position) ctx s = _
    rw [Parser.bind, Parser.skipTrivia, hctx.1, hskip]
    rfl
  refine ⟨value, last, ?_, hlast, hP⟩
  change Parser.bind Parser.tokenStart p ctx s = _
  rw [Parser.bind, hstart]
  exact hp

theorem Mismatches.ofTokenStart {p : Nat → Parser α}
    (h : ∀ ctx s, ctx.newlines = newlines ∧ ctx.limit = limit → Starts (next newlines ls) s.rest →
      ∃ pos expected furthest, p s.pos ctx s = .mismatch pos expected furthest) :
    Mismatches limit (Parser.tokenStart >>= p) newlines ls := by
  intro ctx s hctx hs
  obtain ⟨crossed, s', hskip, hstarts⟩ := skipTriviaWith_written hs newlines ctx
  obtain ⟨pos, expected, furthest, hp⟩ := h ctx s' hctx hstarts
  have hstart : Parser.tokenStart ctx s = .ok s'.pos s' := by
    change Parser.bind Parser.skipTrivia (fun _ => Parser.position) ctx s = _
    rw [Parser.bind, Parser.skipTrivia, hctx.1, hskip]
    rfl
  refine ⟨pos, expected, furthest, ?_⟩
  change Parser.bind Parser.tokenStart p ctx s = _
  rw [Parser.bind, hstart]
  exact hp

theorem reads_tokenStart : Reads limit Parser.tokenStart newlines ls (next newlines ls) fun _ => True :=
  Reads.ofStarts fun _ s _ hs => ⟨s.pos, s, rfl, hs.written, trivial⟩

theorem Starts.exists_text {l : Lexeme} {cs : List Char} (h : Starts (l :: ls) cs)
    (hl : l ≠ .lineEnd) :
    ∃ text after, cs = text ++ after ∧ l.Spelled text ∧ Separated after ∧ Written ls after := by
  cases h with
  | lineEnd _ => exact absurd rfl hl
  | lexeme hl hcs h => exact ⟨_, _, rfl, hl, hcs, h⟩

theorem mismatch_of_not {c : Prop} [Decidable c] {p : Parser α} {expected : String} (ctx : Context)
    (s : State) (h : ¬ c) :
    ∃ pos expected' furthest, (if c then p else Parser.fail expected : Parser α) ctx s =
      .mismatch pos expected' furthest :=
  ⟨_, _, _, by rw [if_neg h]; rfl⟩

-- The lexemes start with a symbol that has `t` at its front.
def startsWithSymbol (t : String) : List Lexeme → Bool
  | .symbol s :: _ => t.toList.isPrefixOf s.toList
  | _ => false

theorem reads_symbol_next {t : String} (h : next newlines ls = .symbol t :: rest) :
    Reads limit (Parser.symbol t) newlines ls rest fun _ => True := by
  refine Reads.ofStarts fun ctx s _ hs => ?_
  rw [h] at hs
  obtain ⟨_, after, hrest, ⟨_, rfl⟩, _, hw⟩ := hs.exists_text nofun
  have hfront : t.toList.isPrefixOf s.rest = true := by simp [hrest]
  refine ⟨(), s.advance t.length, ?_, ?_, trivial⟩
  · change (if t.toList.isPrefixOf s.rest then Parser.advance t.length else _ : Parser Unit) ctx s = _
    rw [if_pos hfront]
    rfl
  · change Written rest (s.rest.drop t.length)
    rwa [hrest, ← String.length_toList, List.drop_left]

theorem reads_symbol (t : String) :
    Reads limit (Parser.symbol t) newlines (.symbol t :: rest) rest fun _ => True :=
  reads_symbol_next rfl

theorem isPrefixOf_starts {t : String} (ht : t ∈ symbols) {cs : List Char} (h : Starts ls cs) :
    t.toList.isPrefixOf cs = startsWithSymbol t ls := by
  have hne := List.ne_nil_of_mem (symbol_class ht).2.2.1.choose_spec.1
  cases h with
  | nil =>
      obtain ⟨c, tail, htail⟩ := List.exists_cons_of_ne_nil hne
      rw [htail]
      rfl
  | lineEnd _ =>
      have hline := (symbol_class ht).2.1
      obtain ⟨c, tail, htail⟩ := List.exists_cons_of_ne_nil hne
      rw [htail] at hline ⊢
      have hc : (c == '\n') = false := by
        rw [beq_eq_false_iff_ne]
        rintro rfl
        exact hline List.mem_cons_self
      simp [List.isPrefixOf, startsWithSymbol, hc]
  | @lexeme l _ text after hl hafter _ =>
      rw [Bool.eq_iff_iff, List.isPrefixOf_iff_prefix]
      constructor
      · intro h
        obtain ⟨s, rfl, hp⟩ := exists_symbol_of_prefix ht hl hafter h
        exact List.isPrefixOf_iff_prefix.mpr hp
      · intro h
        cases l with
        | symbol s =>
            rw [hl.2]
            exact (List.isPrefixOf_iff_prefix.mp h).trans (List.prefix_append _ _)
        | _ => cases h

theorem mismatches_symbol {t : String} (ht : t ∈ symbols)
    (h : startsWithSymbol t (next newlines ls) = false) :
    Mismatches limit (Parser.symbol t) newlines ls := by
  refine Mismatches.ofStarts fun ctx s _ hs => ?_
  have hfront := isPrefixOf_starts ht hs
  rw [h] at hfront
  exact mismatch_of_not ctx s (by rw [hfront]; nofun)

theorem reads_trySymbol (t : String) :
    Reads limit (Parser.trySymbol t) newlines (.symbol t :: rest) rest (· = true) :=
  .bind (reads_symbol t).attempt fun _ ⟨_, hv, _⟩ => .pure (by rw [hv]; rfl)

theorem reads_trySymbol_false {t : String} (ht : t ∈ symbols)
    (h : startsWithSymbol t (next newlines ls) = false) :
    Reads limit (Parser.trySymbol t) newlines ls ls (· = false) :=
  .bind (mismatches_symbol ht h).attempt fun _ hv => .pure (by rw [hv]; rfl)

theorem reads_lookingAt {t : String} (ht : t ∈ symbols) :
    Reads limit (Parser.lookingAt t) newlines ls ls (· = startsWithSymbol t (next newlines ls)) := by
  refine Reads.lookahead (?_ : Reads limit _ _ _ (next newlines ls) _)
  exact Reads.ofStarts fun ctx s _ hs => ⟨_, s, rfl, hs.written, isPrefixOf_starts ht hs⟩

-- The first lexeme could be read as the word `w`: it is the word, or a key.
def startsWithWord (w : String) : List Lexeme → Bool
  | .word v :: _ => v == w
  | .key _ :: _ => true
  | _ => false

-- What `keyword` does behind trivia.
theorem keyword_ok {w : String} {text after : List Char} (ctx : Context) {s : State}
    (hrest : s.rest = text ++ after) (hmatch : MatchesWord w s.rest)
    (htext : text.map Char.toLower = w.toList) (h : Written rest after) :
    ∃ value next, (do
      let cs ← Parser.ahead
      if MatchesWord w cs then Parser.advance w.length else Parser.fail s!"'{w}'" : Parser Unit)
        ctx s = .ok value next ∧ Written rest next.rest ∧ True := by
  have hlen : w.length = text.length := by
    rw [← String.length_toList, ← htext, List.length_map]
  refine ⟨(), s.advance w.length, ?_, ?_, trivial⟩
  · change (if MatchesWord w s.rest then Parser.advance w.length else _ : Parser Unit) ctx s = _
    rw [if_pos hmatch]
    rfl
  · change Written rest (s.rest.drop w.length)
    rwa [hrest, hlen, List.drop_left]

theorem reads_keyword (w : String) :
    Reads limit (Parser.keyword w) newlines (.word w :: rest) rest fun _ => True := by
  refine Reads.ofStarts fun ctx s _ hs => ?_
  obtain ⟨text, after, hrest, hl, hafter, hw⟩ := hs.exists_text nofun
  refine keyword_ok ctx hrest ?_ hl.2 hw
  rw [hrest, matchesWord_append_iff hl.1 (isKeyChar_of_spelled_word hl) hafter]
  exact hl.2

theorem not_matchesWord_starts {w : String} (hw : w ∈ keywords)
    (h : startsWithWord w ls = false) {cs : List Char} (hs : Starts ls cs) :
    ¬ MatchesWord w cs := by
  cases hs with
  | nil => exact not_matchesWord_nil hw
  | lineEnd _ => exact not_matchesWord_cons hw (by decide) rfl _
  | @lexeme l _ text after hl hafter _ =>
      by_cases hword : ∃ v, l = .word v
      · obtain ⟨v, rfl⟩ := hword
        rw [matchesWord_append_iff hw (isKeyChar_of_spelled_word hl) hafter, hl.2]
        intro heq
        rw [startsWithWord, String.toList_inj.mp heq, beq_self_eq_true] at h
        cases h
      · have hkey : ∀ k, l ≠ .key k := by
          rintro k rfl
          cases h
        obtain ⟨c, tail, rfl, hc, halpha⟩ := not_isAlpha_head hl (fun v hv => hword ⟨v, hv⟩) hkey
        exact not_matchesWord_cons hw hc halpha _

theorem mismatches_keyword {w : String} (hw : w ∈ keywords)
    (h : startsWithWord w (next newlines ls) = false) :
    Mismatches limit (Parser.keyword w) newlines ls := by
  refine Mismatches.ofStarts fun ctx s _ hs => ?_
  exact mismatch_of_not ctx s (not_matchesWord_starts hw h hs)

-- A key may be spelled like a word, and then it is read as one.
theorem keyword_at_key {w : String} (hw : w ∈ keywords) (k : Key) :
    Reads limit (Parser.keyword w) newlines (.key k :: rest) rest (fun _ => True) ∨
      Mismatches limit (Parser.keyword w) newlines (.key k :: rest) := by
  by_cases hk : ∃ text, (Lexeme.key k).Spelled text ∧ text.map Char.toLower = w.toList
  · left
    obtain ⟨spelled, hspelled, hlower⟩ := hk
    refine Reads.ofStarts fun ctx s _ hs => ?_
    obtain ⟨text, after, hrest, hl, hafter, hwritten⟩ := hs.exists_text nofun
    obtain rfl : text = spelled :=
      ofChars_inj (congrArg Key.text (hl.2.symm.trans hspelled.2))
    refine keyword_ok ctx hrest ?_ hlower hwritten
    rw [hrest, matchesWord_append_iff hw (isKeyChar_of_spelled_key hl) hafter]
    exact hlower
  · right
    refine Mismatches.ofStarts fun ctx s _ hs => mismatch_of_not ctx s ?_
    obtain ⟨text, after, hrest, hl, hafter, _⟩ := hs.exists_text nofun
    change ¬ MatchesWord w s.rest
    rw [hrest, matchesWord_append_iff hw (isKeyChar_of_spelled_key hl) hafter]
    exact fun hlower => hk ⟨text, hl, hlower⟩

theorem reads_tryKeyword (w : String) :
    Reads limit (Parser.tryKeyword w) newlines (.word w :: rest) rest (· = true) :=
  .bind (reads_keyword w).attempt fun _ ⟨_, hv, _⟩ => .pure (by rw [hv]; rfl)

theorem reads_tryKeyword_false {w : String} (hw : w ∈ keywords)
    (h : startsWithWord w (next newlines ls) = false) :
    Reads limit (Parser.tryKeyword w) newlines ls ls (· = false) :=
  .bind (mismatches_keyword hw h).attempt fun _ hv => .pure (by rw [hv]; rfl)

-- The first lexeme is made of key characters, at least at its front.
def startsWithKey : List Lexeme → Bool
  | .word _ :: _ | .key _ :: _ | .number _ :: _ | .percent _ :: _ => true
  | _ => false

theorem key_ok {text after : List Char} (hne : text ≠ [])
    (htext : ∀ c ∈ text, isKeyChar c = true) (hafter : Separated after) (ctx : Context) {s : State}
    (hrest : s.rest = text ++ after) (h : Written rest after) :
    ∃ value next, (do
      let cs := keyChars (← Parser.ahead)
      if cs.isEmpty then Parser.fail "an identifier"
      else
        Parser.advance cs.length
        return Key.ofChars cs : Parser Key) ctx s = .ok value next ∧ Written rest next.rest ∧
      value = Key.ofChars text := by
  have hcs : keyChars s.rest = text := by rw [hrest, keyChars_append htext hafter]
  refine ⟨Key.ofChars text, s.advance text.length, ?_, ?_, rfl⟩
  · change (if (keyChars s.rest).isEmpty then _ else do
      Parser.advance (keyChars s.rest).length
      return Key.ofChars (keyChars s.rest) : Parser Key) ctx s = _
    rw [hcs, if_neg (by simpa using hne)]
    rfl
  · change Written rest (s.rest.drop text.length)
    rwa [hrest, List.drop_left]

theorem reads_key (k : Key) : Reads limit Parser.key newlines (.key k :: rest) rest (· = k) := by
  refine Reads.ofStarts fun ctx s _ hs => ?_
  obtain ⟨text, after, hrest, hl, hafter, hw⟩ := hs.exists_text nofun
  rw [hl.2]
  exact key_ok hl.ne_nil (isKeyChar_of_spelled_key hl) hafter ctx hrest hw

-- A word can be read as a key.
theorem reads_key_word (w : String) :
    Reads limit Parser.key newlines (.word w :: rest) rest fun _ => True := by
  refine Reads.ofStarts fun ctx s _ hs => ?_
  obtain ⟨text, after, hrest, hl, hafter, hw⟩ := hs.exists_text nofun
  obtain ⟨value, last, hv, hlast, _⟩ :=
    key_ok hl.ne_nil (isKeyChar_of_spelled_word hl) hafter ctx hrest hw
  exact ⟨value, last, hv, hlast, trivial⟩

theorem mismatches_key (h : startsWithKey (next newlines ls) = false) :
    Mismatches limit Parser.key newlines ls := by
  refine Mismatches.ofStarts fun ctx s _ hs => ?_
  have hnone : keyChars s.rest = [] := by
    generalize s.rest = cs at hs
    generalize next newlines ls = ls at hs h
    cases hs with
    | nil => rfl
    | lineEnd _ => rfl
    | @lexeme l _ text after hl hafter _ =>
        cases l with
        | symbol t =>
            rw [hl.2]
            exact keyChars_symbol hl.1 after
        | text t =>
            rw [hl]
            rfl
        | lineEnd => cases hl
        | _ => cases h
  refine ⟨s.pos, "an identifier", s.furthest.record s.pos "an identifier", ?_⟩
  change (if (keyChars s.rest).isEmpty then Parser.fail "an identifier" else _ : Parser Key) ctx s = _
  rw [hnone]
  rfl

def startsWithText : List Lexeme → Bool
  | .text _ :: _ => true
  | _ => false

-- A quote starts a string and nothing else.
theorem Starts.exists_text_of_quote {inside : List Char} (h : Starts ls ('"' :: inside)) :
    ∃ t tail, ls = .text t :: tail := by
  generalize hcs : '"' :: inside = cs at h
  cases h with
  | nil => cases hcs
  | lineEnd _ => cases hcs
  | @lexeme l tail text after hl hafter _ =>
      obtain ⟨c, cs, rfl⟩ := List.exists_cons_of_ne_nil hl.ne_nil
      obtain rfl : '"' = c := (List.cons.inj hcs).1
      cases l with
      | text t => exact ⟨t, tail, rfl⟩
      | word w => cases isKeyChar_of_spelled_word hl _ List.mem_cons_self
      | key k => cases isKeyChar_of_spelled_key hl _ List.mem_cons_self
      | number n => cases isKeyChar_of_spelled_number hl _ List.mem_cons_self
      | symbol s => exact absurd rfl ((symbol_class hl.1).2.2.2 '"' (by rw [← hl.2]; rfl)).1
      | percent p =>
          obtain ⟨digits, heq, hd⟩ := hl
          obtain ⟨d, ds, rfl⟩ := List.exists_cons_of_ne_nil hd.nonempty
          obtain rfl : '"' = d := (List.cons.inj heq).1
          cases hd.digit _ List.mem_cons_self
      | lineEnd => cases hl

theorem reads_string (t : Text) : Reads limit Parser.string newlines (.text t :: rest) rest (· = t) := by
  refine Reads.ofTokenStart fun ctx s _ hs => ?_
  obtain ⟨text, after, hrest, hl, _, hw⟩ := hs.exists_text nofun
  have hinside : s.rest = '"' :: (t.flatMap CodePoint.write ++ '"' :: after) := by
    rw [hrest, hl]
    simp [quoted]
  refine ⟨t, s.advance (1 + ((t.flatMap CodePoint.write).length + 1)), ?_, ?_, rfl⟩
  · simp only [bind, Parser.bind, Parser.ahead, hinside, scanString_write]
    rfl
  · have hlen : (quoted t).length = 1 + ((t.flatMap CodePoint.write).length + 1) := by
      rw [quoted, List.length_cons, List.length_append, List.length_singleton, Nat.add_comm]
    change Written rest (s.rest.drop (1 + ((t.flatMap CodePoint.write).length + 1)))
    rwa [hrest, hl, ← hlen, List.drop_left]

theorem mismatches_string (h : startsWithText (next newlines ls) = false) :
    Mismatches limit Parser.string newlines ls := by
  refine Mismatches.ofTokenStart fun ctx s _ hs => ?_
  have hquote : ∀ inside, s.rest ≠ '"' :: inside := by
    intro inside heq
    rw [heq] at hs
    obtain ⟨t, tail, hls⟩ := hs.exists_text_of_quote
    rw [hls] at h
    cases h
  refine ⟨s.pos, "a string", s.furthest.record s.pos "a string", ?_⟩
  simp only [bind, Parser.bind, Parser.ahead]
  rfl

theorem unsigned_ok {ctx : Context} {s s' : State} {crossed : Bool}
    (hskip : Parser.skipTrivia ctx s = .ok crossed s') {digits after : List Char} {n : Nat}
    (hrest : s'.rest = digits ++ after) (hd : IsDecimal digits n)
    (hafter : continuesKey after = false) :
    Parser.unsigned ctx s = .ok n (s'.advance digits.length) := by
  obtain ⟨htake, hdrop⟩ := takeWhile_digits hd.digit hafter
  have hempty : digits.isEmpty = false := List.isEmpty_eq_false_iff.mpr hd.nonempty
  simp only [Parser.unsigned, bind, Parser.bind, hskip, Parser.ahead, hrest, htake, hdrop, hempty,
    hafter, Bool.false_eq_true, false_and, or_false, if_false, Nat.not_lt.mpr hd.length,
    Parser.advance, pure, Parser.pure, hd.value]

theorem unsigned_mismatch {ctx : Context} {s s' : State} {crossed : Bool}
    (hskip : Parser.skipTrivia ctx s = .ok crossed s')
    (h : (s'.rest.takeWhile Char.isDigit).isEmpty ∨
      (continuesKey (s'.rest.dropWhile Char.isDigit) ∧
        !startsArrow (s'.rest.dropWhile Char.isDigit)) ∨
      maxIntegerDigits < (s'.rest.takeWhile Char.isDigit).length) :
    ∃ pos expected furthest, Parser.unsigned ctx s = .mismatch pos expected furthest := by
  simp only [Parser.unsigned, bind, Parser.bind, hskip, Parser.ahead]
  by_cases hfirst : (s'.rest.takeWhile Char.isDigit).isEmpty ∨
      (continuesKey (s'.rest.dropWhile Char.isDigit) ∧
        !startsArrow (s'.rest.dropWhile Char.isDigit))
  · rw [if_pos hfirst]
    exact ⟨_, _, _, rfl⟩
  · rw [if_neg hfirst, if_pos ((or_assoc.mpr h).resolve_left hfirst)]
    exact ⟨_, _, _, rfl⟩

theorem skipTrivia_starts {ctx : Context} {s : State} (hctx : ctx.newlines = newlines)
    (hs : Written ls s.rest) :
    ∃ crossed s', Parser.skipTrivia ctx s = .ok crossed s' ∧ Starts (next newlines ls) s'.rest := by
  obtain ⟨crossed, s', hskip, hstarts⟩ := skipTriviaWith_written hs newlines ctx
  exact ⟨crossed, s', by rw [Parser.skipTrivia, hctx]; exact hskip, hstarts⟩

theorem reads_unsigned {n : Int} (hn : 0 ≤ n) :
    Reads limit Parser.unsigned newlines (.number n :: rest) rest fun v => (v : Int) = n := by
  intro ctx s hctx hs
  obtain ⟨crossed, s', hskip, hstarts⟩ := skipTrivia_starts hctx.1 hs
  obtain ⟨text, after, hrest, hl, hafter, hw⟩ := hstarts.exists_text nofun
  rcases hl with ⟨_, hd⟩ | ⟨hneg, _⟩
  · refine ⟨n.natAbs, _, unsigned_ok hskip hrest hd hafter.continuesKey_eq, ?_, by omega⟩
    change Written rest (s'.rest.drop text.length)
    rwa [hrest, List.drop_left]
  · omega

theorem mismatches_unsigned_key {k : Key} (hk : ¬ k.IsNumber) :
    Mismatches limit Parser.unsigned newlines (.key k :: rest) := by
  intro ctx s hctx hs
  obtain ⟨crossed, s', hskip, hstarts⟩ := skipTrivia_starts hctx.1 hs
  obtain ⟨text, after, hrest, hl, hafter, _⟩ := hstarts.exists_text nofun
  refine unsigned_mismatch hskip ?_
  rw [hrest]
  exact not_digits_of_not_isNumber hl.ne_nil (isKeyChar_of_spelled_key hl) hafter (hl.2 ▸ hk)

theorem mismatches_unsigned_symbol (t : String) :
    Mismatches limit Parser.unsigned newlines (.symbol t :: rest) := by
  intro ctx s hctx hs
  obtain ⟨crossed, s', hskip, hstarts⟩ := skipTrivia_starts hctx.1 hs
  obtain ⟨_, after, hrest, ⟨ht, rfl⟩, _, _⟩ := hstarts.exists_text nofun
  refine unsigned_mismatch hskip (.inl ?_)
  obtain ⟨_, _, ⟨c, hc, _⟩, hhead⟩ := symbol_class ht
  obtain ⟨d, ds, hds⟩ := List.exists_cons_of_ne_nil (List.ne_nil_of_mem hc)
  have hdigit := (hhead d (by rw [hds]; rfl)).2
  rw [hrest, hds, List.cons_append, List.takeWhile_cons_of_neg (by rw [hdigit]; nofun)]
  rfl

theorem leadingSign?_digit {c : Char} (hc : c.isDigit = true) (cs : List Char) :
    Parser.leadingSign? (c :: cs) = none := by
  unfold Parser.leadingSign?
  split
  next heq =>
    obtain ⟨rfl, _⟩ := List.cons.inj heq
    cases hc
  next heq =>
    obtain ⟨rfl, _⟩ := List.cons.inj heq
    cases hc
  next => rfl

theorem reads_signed (n : Int) :
    Reads limit Parser.signed newlines (.number n :: rest) rest (· = n) := by
  refine Reads.ofStarts fun ctx s hctx hs => ?_
  obtain ⟨text, after, hrest, hl, hafter, hw⟩ := hs.exists_text nofun
  rcases hl with ⟨hn, hd⟩ | ⟨hn, digits, rfl, hd⟩
  · obtain ⟨c, cs, rfl⟩ := List.exists_cons_of_ne_nil hd.nonempty
    obtain ⟨v, last, hv, hlast, hvalue⟩ := reads_unsigned hn ctx s hctx hs.written
    refine ⟨n, last, ?_, hlast, rfl⟩
    simp only [bind, Parser.bind, Parser.ahead, hrest, List.cons_append,
      leadingSign?_digit (hd.digit c List.mem_cons_self), hv, pure, Parser.pure, hvalue]
  · obtain ⟨c, cs, rfl⟩ := List.exists_cons_of_ne_nil hd.nonempty
    have hsign : Parser.leadingSign? ('-' :: c :: (cs ++ after)) = some true := by
      rw [Parser.leadingSign?, if_pos (hd.digit c List.mem_cons_self)]
    have hnext : Written (.number n.natAbs :: rest) (s.advance 1).rest := by
      change Written _ (s.rest.drop 1)
      rw [hrest]
      exact .lexeme (.inl ⟨by omega, by rwa [Int.natAbs_natCast]⟩) hafter hw
    obtain ⟨v, last, hv, hlast, hvalue⟩ := reads_unsigned (by omega) ctx (s.advance 1) hctx hnext
    refine ⟨n, last, ?_, hlast, rfl⟩
    simp only [bind, Parser.bind, Parser.ahead, hrest, List.cons_append, hsign, Parser.advance, hv,
      pure, Parser.pure, if_true, hvalue]
    rw [show -((n.natAbs : Nat) : Int) = n by omega]

theorem exists_digit_of_leadingSign? {cs : List Char} {negative : Bool}
    (h : Parser.leadingSign? cs = some negative) :
    ∃ sign c rest, cs = sign :: c :: rest ∧ (sign = '-' ∨ sign = '+') ∧ c.isDigit = true := by
  unfold Parser.leadingSign? at h
  split at h
  next c rest =>
    split at h
    next hc => exact ⟨'-', c, rest, rfl, .inl rfl, hc⟩
    next => cases h
  next c rest =>
    split at h
    next hc => exact ⟨'+', c, rest, rfl, .inr rfl, hc⟩
    next => cases h
  next => cases h

-- Only a minus sign is a key character, so what stands behind the sign is the rest of the key.
theorem mismatches_signed_key {k : Key} (hk : ¬ k.IsSignedNumber) :
    Mismatches limit Parser.signed newlines (.key k :: rest) := by
  refine Mismatches.ofStarts fun ctx s hctx hs => ?_
  obtain ⟨hnumber, htail⟩ := not_or.mp hk
  obtain ⟨text, after, hrest, hl, hafter, hw⟩ := hs.exists_text nofun
  cases hsign : Parser.leadingSign? s.rest with
  | none =>
      obtain ⟨pos, expected, furthest, hv⟩ := mismatches_unsigned_key hnumber ctx s hctx hs.written
      refine ⟨pos, expected, furthest, ?_⟩
      simp only [bind, Parser.bind, Parser.ahead, hsign, hv]
  | some negative =>
      have hkey := isKeyChar_of_spelled_key hl
      obtain ⟨sign, c, tail, hcs, hminus, hc⟩ := exists_digit_of_leadingSign? hsign
      obtain ⟨d, cs, rfl⟩ := List.exists_cons_of_ne_nil hl.ne_nil
      rw [hrest, List.cons_append] at hcs
      obtain ⟨rfl, hbehind⟩ := List.cons.inj hcs
      obtain rfl : d = '-' := hminus.resolve_right fun hplus => by
        subst hplus
        cases hkey _ List.mem_cons_self
      have hne : cs ≠ [] := by
        rintro rfl
        rw [List.nil_append] at hbehind
        rw [hbehind] at hafter
        rcases hafter with rfl | rfl <;> cases hc
      have hvalid : (Key.ofChars cs).Valid := by
        refine ⟨by simpa [Key.ofChars, Text.ofChars] using hne, ?_⟩
        simpa [Key.ofChars, Text.ofChars, CodePoint.isKeyPoint] using
          fun c hc => hkey c (List.mem_cons_of_mem _ hc)
      have hnext : Written (.key (Key.ofChars cs) :: rest) (s.advance 1).rest := by
        change Written _ (s.rest.drop 1)
        rw [hrest]
        exact .lexeme ⟨hvalid, rfl⟩ hafter hw
      have hcsnumber : ¬ (Key.ofChars cs).IsNumber := by
        rw [hl.2] at htail
        exact fun h => htail ⟨rfl, h⟩
      obtain ⟨pos, expected, furthest, hv⟩ :=
        mismatches_unsigned_key hcsnumber ctx (s.advance 1) hctx hnext
      refine ⟨pos, expected, furthest, ?_⟩
      simp only [bind, Parser.bind, Parser.ahead, hsign, Parser.advance, hv]

theorem reads_percentage (p : Probability) :
    Reads limit Parser.percentage newlines (.percent p :: rest) rest (· = p) := by
  refine Reads.ofTokenStart fun ctx s hctx hs => ?_
  obtain ⟨_, after, hrest, ⟨digits, rfl, hd⟩, _, hw⟩ := hs.exists_text nofun
  rw [List.append_assoc, List.singleton_append] at hrest
  have hskip : Parser.skipTrivia ctx s = .ok false s := by
    obtain ⟨c, cs, rfl⟩ := List.exists_cons_of_ne_nil hd.nonempty
    obtain ⟨hline, hspace, hslash, hopen⟩ :=
      not_trivia_of_isKeyChar (isKeyChar_of_isDigit (hd.digit c List.mem_cons_self))
    have hscan := scan_stop (cs ++ '%' :: after) hline hspace hslash (fun h => absurd h hopen)
      ctx.newlines s.pos false
    simp only [Parser.skipTrivia, Parser.skipTriviaWith, Trivia.skip, hrest, List.cons_append, hscan]
    rw [← List.cons_append, ← hrest]
  have hvalue := unsigned_ok hskip hrest hd rfl
  have hdrop : (s.advance digits.length).rest = '%' :: after := by
    change s.rest.drop digits.length = _
    rw [hrest, List.drop_left]
  refine ⟨p, (s.advance digits.length).advance 1, ?_, ?_, rfl⟩
  · simp only [bind, Parser.bind, hvalue, Parser.ahead, hdrop, Parser.advance]
    have hp : Probability.ofInt? p.value = some p := by
      have hle := p.le_hundred
      rw [Probability.ofInt?, dif_pos (by omega)]
      rfl
    rw [hp]
    rfl
  · change Written rest ((s.advance digits.length).rest.drop 1)
    rwa [hdrop]

theorem reads_tryPercentage (p : Probability) :
    Reads limit Parser.tryPercentage newlines (.percent p :: rest) rest (· = some p) :=
  (reads_percentage p).attempt.mono fun _ ⟨_, hv, hp⟩ => by rw [hv, hp]

theorem mismatches_percentage_symbol (t : String) :
    Mismatches limit Parser.percentage newlines (.symbol t :: rest) :=
  .after reads_tokenStart fun _ _ => .bind (mismatches_unsigned_symbol t)

theorem Starts.exists_lineEnd {cs : List Char} (h : Starts (.lineEnd :: ls) cs) :
    ∃ after, cs = '\n' :: after ∧ Written ls after := by
  cases h with
  | lineEnd h => exact ⟨_, rfl, h⟩
  | lexeme hl _ _ => cases hl

theorem reads_newline :
    Reads limit Parser.newline newlines (.lineEnd :: ls) (next true ls) fun _ => True := by
  intro ctx s _ hs
  obtain ⟨crossed, s', hskip, hstarts⟩ := skipTriviaWith_written hs false ctx
  obtain ⟨after, hrest, hw⟩ := hstarts.exists_lineEnd
  obtain ⟨crossed', last, hskip', hlast⟩ := skipTriviaWith_written hstarts.written true ctx
  refine ⟨(), last, ?_, hlast.written, trivial⟩
  simp only [Parser.newline, bind, Parser.bind, hskip, Parser.ahead, hrest]
  change Parser.bind (Parser.skipTriviaWith true) _ ctx s' = _
  rw [Parser.bind, hskip']
  rfl

theorem reads_onlyTriviaLeft :
    Reads limit Parser.onlyTriviaLeft newlines ls ls (· = (next true ls).isEmpty) := by
  refine Reads.lookahead (?_ : Reads limit _ _ _ (next true ls) _)
  intro ctx s _ hs
  obtain ⟨crossed, s', hskip, hstarts⟩ := skipTriviaWith_written hs true ctx
  refine ⟨s'.rest.isEmpty, s', ?_, hstarts.written, ?_⟩
  · change Parser.bind (Parser.skipTriviaWith true) _ ctx s = _
    rw [Parser.bind, hskip]
    rfl
  · generalize s'.rest = cs at hstarts ⊢
    generalize next true ls = left at hstarts ⊢
    cases hstarts with
    | nil => rfl
    | lineEnd _ => rfl
    | lexeme hl _ _ =>
        obtain ⟨c, tail, rfl⟩ := List.exists_cons_of_ne_nil hl.ne_nil
        rfl

end

end CardLore
