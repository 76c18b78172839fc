import CardLore.Text.CodePoint
import CardLore.Text.Printable

namespace CardLore.Text

-- `n` in at least `width` lower-case hexadecimal digits.
def hexDigits (width n : Nat) : String :=
  let digits := Nat.toDigits 16 n
  String.ofList (List.replicate (width - digits.length) '0' ++ digits)

-- The escape that names a code point by its number, as short as the number allows.
def numberedEscape (n : Nat) : String :=
  if n < 0x100 then "\\x" ++ hexDigits 2 n
  else if n < 0x10000 then "\\u" ++ hexDigits 4 n
  else "\\U" ++ hexDigits 8 n

def quotedPoint (quote : Char) : CodePoint → Text
  | .surrogate half => numberedEscape (0xD800 + half)
  | .scalar c =>
    if c = '\\' then "\\\\"
    else if c = quote then "\\" ++ String.singleton quote
    else if c = '\n' then "\\n"
    else if c = '\r' then "\\r"
    else if c = '\t' then "\\t"
    else if isPrintable c then [.scalar c]
    else numberedEscape c.toNat

def quoteFor (t : Text) : Char :=
  if t.contains (.scalar '\'') && !t.contains (.scalar '"') then '"' else '\''

def quoted (t : Text) : Text :=
  let quote := quoteFor t
  .scalar quote :: (t.flatMap (quotedPoint quote) ++ [.scalar quote])

end CardLore.Text
