namespace CardLore

-- A code point of decoded text: a scalar value, or a lone half of a surrogate pair, which an escape
-- in a quoted string may name. Sources themselves are made of scalar values only.
inductive CodePoint where
  | scalar (c : Char)
  | surrogate (half : Fin 0x800)
deriving DecidableEq, Repr, Inhabited

namespace CodePoint

def toNat : CodePoint → Nat
  | scalar c => c.toNat
  | surrogate half => 0xD800 + half

-- Every number below 0x110000 is the number of one code point.
def ofNat (n : Nat) : CodePoint :=
  if h : 0xD800 ≤ n ∧ n < 0xE000 then surrogate ⟨n - 0xD800, by omega⟩ else scalar (Char.ofNat n)

def isSurrogate : CodePoint → Bool
  | scalar _ => false
  | surrogate _ => true

end CodePoint

abbrev Text := List CodePoint

namespace Text

def ofChars (cs : List Char) : Text :=
  cs.map CodePoint.scalar

def ofString (s : String) : Text :=
  ofChars s.toList

instance : Coe String Text := ⟨ofString⟩

-- The characters of a text, which exist when it holds no surrogate.
def toChars? : Text → Option (List Char)
  | [] => some []
  | .scalar c :: rest => (toChars? rest).map (c :: ·)
  | .surrogate _ :: _ => none

def toString? (t : Text) : Option String :=
  (toChars? t).map String.ofList

def concat (parts : List Text) : Text :=
  parts.flatten

-- The parts with a separator between each two neighbours.
def join (separator : Text) (parts : List Text) : Text :=
  (parts.intersperse separator).flatten

end Text

end CardLore
