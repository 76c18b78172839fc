import CardLore.Proofs.Reading.Sequence
import CardLore.Proofs.Writing.Valid

namespace CardLore

theorem scanFraction?_separated {after : List Char} (h : Separated after) :
    Numeral.scanFraction? after = none := by
  cases after with
  | nil => rfl
  | cons c after => rcases h with rfl | rfl <;> rfl

theorem scanExponent?_separated {after : List Char} (h : Separated after) :
    Numeral.scanExponent? after = none := by
  cases after with
  | nil => rfl
  | cons c after => rcases h with rfl | rfl <;> simp [Numeral.scanExponent?]

theorem scanSign_digit {c : Char} (hc : c.isDigit = true) (cs : List Char) :
    Numeral.scanSign (c :: cs) = (false, 0) := by
  unfold Numeral.scanSign
  split
  next heq =>
    obtain ⟨rfl, _⟩ := List.cons.inj heq
    cases hc
  next heq =>
    obtain ⟨rfl, _⟩ := List.cons.inj heq
    cases hc
  next => rfl

-- Digits behind a sign are scanned as a whole number.
theorem scan_digits (sign : List Char) {digits after : List Char} {negative : Bool} {n : Nat}
    (hd : IsDecimal digits n) (hafter : Separated after)
    (hsign : Numeral.scanSign (sign ++ (digits ++ after)) = (negative, sign.length)) :
    Numeral.scan (sign ++ (digits ++ after)) =
      (⟨negative, digits, none, none⟩, (sign ++ digits).length) := by
  obtain ⟨htake, _⟩ := takeWhile_digits hd.digit hafter.continuesKey_eq
  simp only [Numeral.scan, hsign, List.drop_left, htake, scanFraction?_separated hafter,
    List.drop_zero, scanExponent?_separated hafter, List.length_append, Nat.add_zero]

theorem value?_digits {digits : List Char} {n : Nat} (hd : IsDecimal digits n) (negative : Bool) :
    (⟨negative, digits, none, none⟩ : Numeral).value? =
      some (.int (if negative then -(n : Int) else n)) := by
  change (if maxIntegerDigits < digits.length then none else
    some (if negative then -(decimalValue digits : Int) else decimalValue digits)).map Literal.int = _
  rw [if_neg (Nat.not_lt.mpr hd.length), hd.value]
  rfl

theorem scan_number {n : Int} {text after : List Char} (hl : (Lexeme.number n).Spelled text)
    (hafter : Separated after) :
    ∃ numeral, Numeral.scan (text ++ after) = (numeral, text.length) ∧
      numeral.value? = some (.int n) ∧ Parser.startsNumber (text ++ after) = true := by
  rcases hl with ⟨hn, hd⟩ | ⟨hn, digits, rfl, hd⟩
  · obtain ⟨c, cs, rfl⟩ := List.exists_cons_of_ne_nil hd.nonempty
    have hc := hd.digit c List.mem_cons_self
    have hvalue : (n.natAbs : Int) = n := by omega
    refine ⟨_, scan_digits [] hd hafter (scanSign_digit hc _), ?_, ?_⟩
    · rw [value?_digits hd, if_neg Bool.false_ne_true, hvalue]
    · simp [Parser.startsNumber, hc]
  · obtain ⟨c, cs, rfl⟩ := List.exists_cons_of_ne_nil hd.nonempty
    have hc := hd.digit c List.mem_cons_self
    have hvalue : -(n.natAbs : Int) = n := by omega
    refine ⟨_, scan_digits ['-'] hd hafter rfl, ?_, ?_⟩
    · rw [value?_digits hd, if_pos rfl, hvalue]
    · simp [Parser.startsNumber, Parser.leadingSign?, hc]

theorem number_ok {n : Int} {text after : List Char} (hl : (Lexeme.number n).Spelled text)
    (hafter : Separated after) (ctx : Context) {s : State} (hrest : s.rest = text ++ after) :
    Parser.number ctx s = .ok (.int n) (s.advance text.length) := by
  obtain ⟨numeral, hscan, hvalue, _⟩ := scan_number hl hafter
  simp only [Parser.number, bind, Parser.bind, Parser.position, Parser.ahead, hrest, hscan,
    List.drop_left, hafter.continuesKey_eq, Bool.false_eq_true, if_false, hvalue, Parser.advance, pure,
    Parser.pure]

theorem find?_literalWords {word : String} {value : Literal}
    (h : (word, value) ∈ Parser.literalWords) {after : List Char} (hafter : Separated after) :
    Parser.literalWords.find? (fun entry => Parser.startsWord (word.toList ++ after) entry.1) =
      some (word, value) := by
  have hcontinues := hafter.continuesKey_eq
  simp only [Parser.literalWords, List.mem_cons, Prod.mk.injEq, List.not_mem_nil, or_false] at h
  rcases h with ⟨rfl, rfl⟩ | ⟨rfl, rfl⟩ | ⟨rfl, rfl⟩
  · simp [Parser.literalWords, Parser.startsWord]
    exact hcontinues
  · simp [Parser.literalWords, Parser.startsWord]
    exact hcontinues
  · simp [Parser.literalWords, Parser.startsWord]
    exact hcontinues

theorem literalWord_ok {word : String} {value : Literal} (h : (word, value) ∈ Parser.literalWords)
    {after : List Char} (hafter : Separated after) (ctx : Context) {s : State}
    (hrest : s.rest = word.toList ++ after) :
    Parser.literalWord ctx s = .ok value (s.advance word.length) := by
  simp only [Parser.literalWord, bind, Parser.bind, Parser.ahead, hrest,
    find?_literalWords h hafter, Parser.advance, pure, Parser.pure]

section

variable {limit : Nat} {newlines : Bool} {rest : List Lexeme} {depth : Nat}

theorem scalar_of_isKeyChar {c : Char} (hc : isKeyChar c = true) (cs : List Char)
    (quoted array object scalar : Parser Literal) :
    (match c :: cs with
      | '"' :: _ => quoted
      | '[' :: _ => array
      | '\x7b' :: _ => object
      | _ => scalar) = scalar := by
  split
  next heq => cases (List.cons.inj heq).1; cases hc
  next heq => cases (List.cons.inj heq).1; cases hc
  next heq => cases (List.cons.inj heq).1; cases hc
  next => rfl

-- A literal that is neither quoted nor bracketed.
theorem reads_literal_scalar {l : Lexeme} (hl : l ≠ .lineEnd) {value : Literal}
    (hkey : ∀ text, l.Spelled text → ∀ c ∈ text, isKeyChar c = true)
    (h : ∀ text after, l.Spelled text → Separated after → ∀ ctx (s : State), s.rest = text ++ after →
      (if Parser.startsNumber s.rest then Parser.number else Parser.literalWord) ctx s =
        .ok value (s.advance text.length)) :
    Reads limit (Parser.literalWithin (depth + 1)) newlines (l :: rest) rest (· = value) := by
  refine Reads.withNewlines (Reads.ofStarts fun ctx s _ hs => ?_)
  have hnext : next true (l :: rest) = l :: rest := by
    cases l with
    | lineEnd => exact absurd rfl hl
    | _ => rfl
  rw [hnext] at hs
  obtain ⟨text, after, hrest, hspelled, hafter, hw⟩ := hs.exists_text hl
  obtain ⟨c, cs, rfl⟩ := List.exists_cons_of_ne_nil hspelled.ne_nil
  have hc := hkey _ hspelled c List.mem_cons_self
  refine ⟨value, s.advance (c :: cs).length, ?_, ?_, rfl⟩
  · rw [← h _ after hspelled hafter ctx s hrest]
    change Parser.bind Parser.ahead _ ctx s = _
    rw [Parser.bind, Parser.ahead]
    dsimp only
    rw [hrest, List.cons_append]
    exact congrFun (congrFun (scalar_of_isKeyChar hc _ _ _ _ _) ctx) s
  · change Written rest (s.rest.drop (c :: cs).length)
    rwa [hrest, List.drop_left]

theorem reads_literal_int (n : Int) :
    Reads limit (Parser.literalWithin (depth + 1)) newlines (.number n :: rest) rest (· = .int n) := by
  refine reads_literal_scalar (l := .number n) nofun (fun _ hl => isKeyChar_of_spelled_number hl) ?_
  intro text after hl hafter ctx s hrest
  obtain ⟨_, _, _, hstarts⟩ := scan_number hl hafter
  rw [hrest, if_pos hstarts]
  exact number_ok hl hafter ctx hrest

theorem reads_literal_word (word : String) {value : Literal}
    (h : (word, value) ∈ Parser.literalWords) :
    Reads limit (Parser.literalWithin (depth + 1)) newlines (.key (Key.ofChars word.toList) :: rest) rest
      (· = value) := by
  refine reads_literal_scalar (l := .key _) nofun (fun _ hl => isKeyChar_of_spelled_key hl) ?_
  intro text after hl hafter ctx s hrest
  obtain rfl : word.toList = text := ofChars_inj (congrArg Key.text hl.2)
  have hstarts : ∀ e ∈ Parser.literalWords, Parser.startsNumber (e.1.toList ++ after) = false := by
    simp only [Parser.literalWords, List.forall_mem_cons]
    exact ⟨rfl, rfl, rfl, nofun⟩
  rw [hrest, hstarts _ h, String.length_toList]
  exact literalWord_ok h hafter ctx hrest

theorem reads_literal_string (t : Text) :
    Reads limit (Parser.literalWithin (depth + 1)) newlines (.text t :: rest) rest (· = .string t) := by
  have hread : Reads limit (do return Literal.string (← Parser.string)) true (.text t :: rest) rest
      (· = .string t) :=
    .bind (reads_string t) fun _ hv => .pure (congrArg Literal.string hv)
  refine Reads.withNewlines (Reads.ofAhead hread fun cs hs => ?_)
  obtain ⟨_, after, rfl, rfl, _, _⟩ := hs.exists_text nofun
  rfl

theorem reads_literal_array {items : List Literal}
    (h : ∀ item ∈ items, ∀ tail,
      Reads limit (Parser.literalWithin depth) true (item.lexemes ++ tail) tail (· = item))
    (hhead : ∀ item ∈ items, ∀ tail,
      startsWithSymbol "]" (next true (item.lexemes ++ tail)) = false) :
    Reads limit (Parser.literalWithin (depth + 1)) newlines ((Literal.array items).lexemes ++ rest) rest
      (· = .array items) := by
  rw [Literal.lexemes, itemLexemes_eq_map, List.cons_append]
  have hread : Reads limit (do
      Parser.symbol "["
      return Literal.array (← Parser.delimited (Parser.literalWithin depth) "]")) true
      (.symbol "[" :: (commaSeparated "]" (items.map (·.lexemes)) ++ rest)) rest
      (· = .array items) := by
    refine .bind (reads_symbol "[") fun _ _ => ?_
    refine .bind (reads_delimited (by decide) (by decide) hhead h) fun vs hvs => ?_
    exact .pure (congrArg Literal.array (eq_of_forall₂ hvs))
  refine Reads.withNewlines (Reads.ofAhead hread fun cs hs => ?_)
  obtain ⟨_, after, rfl, ⟨_, rfl⟩, _, _⟩ := hs.exists_text nofun
  rfl

theorem reads_memberName (t : Text) :
    Reads limit Parser.memberName newlines (.text t :: rest) rest (· = t) := by
  refine Reads.ofAhead (reads_string t) fun cs hs => ?_
  obtain ⟨_, after, rfl, rfl, _, _⟩ := hs.exists_text nofun
  rfl

-- A member is read if none before it has its name.
theorem readsEach_member {value : Parser Literal} {members : List (Text × Literal)}
    (hnames : (members.map (·.1)).Nodup)
    (h : ∀ m ∈ members, ∀ tail, Reads limit value true (m.2.lexemes ++ tail) tail (· = m.2)) :
    ReadsEach limit (Parser.member value) memberLexeme (fun m v => v = m) members := by
  rintro before ⟨name, inner⟩ after rfl seen hseen tail
  obtain rfl := eq_of_forall₂ hseen
  have hfresh : seen.any (·.1 = name) = false := by
    rw [List.map_append, List.map_cons] at hnames
    simp only [List.any_eq_false, decide_eq_true_eq]
    intro m hm heq
    exact (List.nodup_append.mp hnames).2.2 m.1 (List.mem_map_of_mem hm) name List.mem_cons_self heq
  refine .bind reads_tokenStart fun start _ => ?_
  refine .bind (reads_memberName name) fun _ hname => ?_
  subst hname
  rw [hfresh]
  refine .bind (reads_symbol ":") fun _ _ => ?_
  refine .bind (h _ List.mem_append_cons_self _) fun v hv => ?_
  exact .pure (congrArg (Prod.mk _) hv)

theorem reads_literal_object {members : List (Text × Literal)}
    (hnames : (members.map (·.1)).Nodup)
    (h : ∀ m ∈ members, ∀ tail,
      Reads limit (Parser.literalWithin depth) true (m.2.lexemes ++ tail) tail (· = m.2)) :
    Reads limit (Parser.literalWithin (depth + 1)) newlines ((Literal.object members).lexemes ++ rest)
      rest (· = .object members) := by
  rw [Literal.lexemes, memberLexemes_eq_map, List.cons_append]
  have hread : Reads limit (do
      Parser.symbol "\x7b"
      return Literal.object
        (← Parser.delimitedWith (Parser.member (Parser.literalWithin depth)) "\x7d")) true
      (.symbol "\x7b" :: (commaSeparated "\x7d" (members.map memberLexeme) ++ rest)) rest
      (· = .object members) := by
    refine .bind (reads_symbol "\x7b") fun _ _ => ?_
    refine .bind (reads_delimitedWith (by decide) (by decide) (fun _ _ _ => rfl)
      (readsEach_member hnames h)) fun vs hvs => ?_
    exact .pure (congrArg Literal.object (eq_of_forall₂ hvs))
  refine Reads.withNewlines (Reads.ofAhead hread fun cs hs => ?_)
  obtain ⟨_, after, rfl, ⟨_, rfl⟩, _, _⟩ := hs.exists_text nofun
  rfl

theorem Literal.Fits.not_closing {lit : Literal} (h : lit.Fits depth) (tail : List Lexeme) :
    startsWithSymbol "]" (next true (lit.lexemes ++ tail)) = false := by
  cases h with
  | bool b => cases b <;> rfl
  | _ => rfl

theorem reads_literalWithin {lit : Literal} (h : lit.Fits depth) (newlines : Bool)
    (rest : List Lexeme) :
    Reads limit (Parser.literalWithin depth) newlines (lit.lexemes ++ rest) rest (· = lit) := by
  induction h generalizing newlines rest with
  | null => exact reads_literal_word "null" (by simp [Parser.literalWords])
  | bool b =>
      cases b with
      | true => exact reads_literal_word "true" (by simp [Parser.literalWords])
      | false => exact reads_literal_word "false" (by simp [Parser.literalWords])
  | int _ => exact reads_literal_int _
  | string t => exact reads_literal_string t
  | array h ih =>
      exact reads_literal_array (fun item hitem => ih item hitem true)
        fun item hitem => (h item hitem).not_closing
  | object hnames _ ih => exact reads_literal_object hnames fun m hm => ih m hm true

theorem reads_literal {lit : Literal} (h : lit.Fits limit) :
    Reads limit Parser.literal newlines (lit.lexemes ++ rest) rest (· = lit) := by
  intro ctx s hctx hs
  rw [Parser.literal, hctx.2]
  exact reads_literalWithin h newlines rest ctx s hctx hs

end

end CardLore
