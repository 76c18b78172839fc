import CardLore.Literal.Parser

namespace CardLore

inductive Lexeme where
  | word (word : String)
  | symbol (text : String)
  | key (key : Key)
  | text (text : Text)
  | number (value : Int)
  | percent (chance : Probability)
  | lineEnd

-- The words that can be written in any letter case.
def keywords : List String :=
  ["namespace", "from", "hidden", "aspect", "card", "deck", "verb", "recipe", "legacy", "ending",
    "set", "induce", "xtrigger", "spawn", "mutate", "unique", "slot", "consume", "greedy",
    "default", "require", "table", "extant", "effect", "purge", "draw", "halt", "delete", "link",
    "goto", "expel", "status", "exclude"]

def symbols : List String :=
  ["\x7b", "\x7d", "(", ")", "[", "]", ",", ":", "=", "->", "!", "?", "#", "#!"]

def CodePoint.isKeyPoint : CodePoint → Bool
  | .scalar c => isKeyChar c
  | .surrogate _ => false

-- A key that can be written as an identifier.
def Key.Valid (k : Key) : Prop :=
  k.text ≠ [] ∧ ∀ p ∈ k.text, p.isKeyPoint = true

instance (k : Key) : Decidable k.Valid :=
  inferInstanceAs (Decidable (_ ∧ _))

def CodePoint.isDigitPoint : CodePoint → Bool
  | .scalar c => c.isDigit
  | .surrogate _ => false

-- A key that would be read as a number where one is looked for first.
def Key.IsNumber (k : Key) : Prop :=
  k.text ≠ [] ∧ (∀ p ∈ k.text, p.isDigitPoint = true) ∧ k.text.length ≤ maxIntegerDigits

instance (k : Key) : Decidable k.IsNumber :=
  inferInstanceAs (Decidable (_ ∧ _ ∧ _))

def Key.IsSignedNumber (k : Key) : Prop :=
  k.IsNumber ∨ k.text.head? = some (.scalar '-') ∧ Key.IsNumber ⟨k.text.tail⟩

instance (k : Key) : Decidable k.IsSignedNumber :=
  inferInstanceAs (Decidable (_ ∨ _ ∧ _))

-- An integer that is not too long to be read.
def IsInteger (n : Int) : Prop :=
  (Nat.toDigits 10 n.natAbs).length ≤ maxIntegerDigits

instance (n : Int) : Decidable (IsInteger n) :=
  inferInstanceAs (Decidable (_ ≤ _))

def IsCount (n : Int) : Prop :=
  0 ≤ n ∧ IsInteger n

instance (n : Int) : Decidable (IsCount n) :=
  inferInstanceAs (Decidable (_ ∧ _))

-- The digits of a number that is not too long.
structure IsDecimal (digits : List Char) (n : Nat) : Prop where
  nonempty : digits ≠ []
  digit : ∀ c ∈ digits, c.isDigit = true
  length : digits.length ≤ maxIntegerDigits
  value : decimalValue digits = n

-- Only quotes and backslashes are escaped. A lone half of a surrogate pair is no character of a
-- source, so it is written by its number.
def CodePoint.write : CodePoint → List Char
  | .scalar c => if c = '"' ∨ c = '\\' then ['\\', c] else [c]
  | .surrogate half =>
    let n := 0xD800 + half.val
    ['\\', 'u', (n / 4096).digitChar, (n / 256 % 16).digitChar, (n / 16 % 16).digitChar,
      (n % 16).digitChar]

def quoted (t : Text) : List Char :=
  '"' :: (t.flatMap CodePoint.write ++ ['"'])

namespace Lexeme

-- The text writes the lexeme.
def Spelled : Lexeme → List Char → Prop
  | word w, cs => w ∈ keywords ∧ cs.map Char.toLower = w.toList
  | symbol s, cs => s ∈ symbols ∧ cs = s.toList
  | key k, cs => k.Valid ∧ k = Key.ofChars cs
  | text t, cs => cs = quoted t
  | number n, cs =>
    0 ≤ n ∧ IsDecimal cs n.natAbs ∨ n < 0 ∧ ∃ digits, cs = '-' :: digits ∧ IsDecimal digits n.natAbs
  | percent p, cs => ∃ digits, cs = digits ++ ['%'] ∧ IsDecimal digits p.value
  | lineEnd, _ => False

-- The text of a lexeme, with words in lower case.
def write : Lexeme → List Char
  | word w => w.toList
  | symbol s => s.toList
  | key k => k.text.toChars?.getD []
  | text t => quoted t
  | number n => (if n < 0 then ['-'] else []) ++ Nat.toDigits 10 n.natAbs
  | percent p => Nat.toDigits 10 p.value ++ ['%']
  | lineEnd => ['\n']

-- There is a text that writes the lexeme.
def Writable : Lexeme → Prop
  | word w => w ∈ keywords
  | symbol s => s ∈ symbols
  | key k => k.Valid
  | number n => IsInteger n
  | _ => True

end Lexeme

-- No lexeme goes on with the text.
def Separated : List Char → Prop
  | [] => True
  | c :: _ => c = ' ' ∨ c = '\n'

-- The text holds the lexemes in their order, with blanks between them.
inductive Written : List Lexeme → List Char → Prop
  | nil : Written [] []
  | blank {ls : List Lexeme} {cs : List Char} (h : Written ls cs) : Written ls (' ' :: cs)
  | lineEnd {ls : List Lexeme} {cs : List Char} (h : Written ls cs) :
      Written (.lineEnd :: ls) ('\n' :: cs)
  | lexeme {l : Lexeme} {ls : List Lexeme} {text cs : List Char} (hl : l.Spelled text)
      (hcs : Separated cs) (h : Written ls cs) : Written (l :: ls) (text ++ cs)

-- One blank before each lexeme, and none before a line end.
def render : List Lexeme → List Char
  | [] => []
  | .lineEnd :: ls => '\n' :: render ls
  | l :: ls => ' ' :: (l.write ++ render ls)

theorem isDecimal_toDigits {n : Nat} (h : (Nat.toDigits 10 n).length ≤ maxIntegerDigits) :
    IsDecimal (Nat.toDigits 10 n) n where
  nonempty := Nat.toDigits_ne_nil
  digit := fun _ hc => Nat.isDigit_of_mem_toDigits (by decide) (by decide) hc
  length := h
  value := Nat.ofDigitChars_ten_toDigits

theorem toChars?_of_keyPoints {t : Text} (h : ∀ p ∈ t, p.isKeyPoint = true) :
    ∃ cs, t.toChars? = some cs ∧ t = Text.ofChars cs := by
  induction t with
  | nil => exact ⟨[], rfl, rfl⟩
  | cons p t ih =>
      obtain ⟨hp, ht⟩ := List.forall_mem_cons.mp h
      obtain ⟨cs, hcs, rfl⟩ := ih ht
      cases p with
      | scalar c => exact ⟨c :: cs, by rw [Text.toChars?, hcs, Option.map_some], rfl⟩
      | surrogate half => cases hp

theorem Lexeme.spelled_write {l : Lexeme} (hl : l ≠ .lineEnd) (h : l.Writable) :
    l.Spelled l.write := by
  cases l with
  | word w =>
      have hlower : ∀ w ∈ keywords, w.toList.map Char.toLower = w.toList := by decide
      exact ⟨h, hlower w h⟩
  | symbol s => exact ⟨h, rfl⟩
  | key k =>
      obtain ⟨cs, hcs, htext⟩ := toChars?_of_keyPoints h.2
      refine ⟨h, ?_⟩
      rw [write, hcs, Option.getD_some, Key.ofChars, ← htext]
  | text t => rfl
  | number n =>
      have hdigits := isDecimal_toDigits h
      by_cases hn : n < 0
      · exact .inr ⟨hn, _, by simp [write, hn], hdigits⟩
      · refine .inl ⟨by omega, ?_⟩
        simpa [write, hn] using hdigits
  | percent p =>
      have hle : (Nat.toDigits 10 p.value).length ≤ 3 :=
        (Nat.length_toDigits_le_iff (by decide) (by decide)).mpr
          (Nat.lt_of_le_of_lt p.le_hundred (by decide))
      exact ⟨_, rfl, isDecimal_toDigits (Nat.le_trans hle (by decide))⟩
  | lineEnd => exact absurd rfl hl

theorem separated_render (ls : List Lexeme) : Separated (render ls) := by
  cases ls with
  | nil => trivial
  | cons l ls => cases l <;> simp [render, Separated]

theorem written_render {ls : List Lexeme} (h : ∀ l ∈ ls, l.Writable) : Written ls (render ls) := by
  induction ls with
  | nil => exact .nil
  | cons l ls ih =>
      obtain ⟨hl, hls⟩ := List.forall_mem_cons.mp h
      by_cases hend : l = .lineEnd
      · subst hend
        exact .lineEnd (ih hls)
      · have hrender : render (l :: ls) = ' ' :: (l.write ++ render ls) := by
          cases l with
          | lineEnd => exact absurd rfl hend
          | _ => rfl
        rw [hrender]
        exact .blank (.lexeme (Lexeme.spelled_write hend hl) (separated_render ls) (ih hls))

end CardLore
