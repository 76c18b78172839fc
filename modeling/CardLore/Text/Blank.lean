import CardLore.Text.Boundaries

namespace CardLore.Text

-- The boundaries of white space.
def blankBoundaries : List Nat := [
  0x9, 0xE, 0x1C, 0x21, 0x85, 0x86, 0xA0, 0xA1, 0x1680, 0x1681, 0x2000, 0x200B, 0x2028, 0x202A,
  0x202F, 0x2030, 0x205F, 0x2060, 0x3000, 0x3001]

-- White space of any kind.
def isBlank (c : Char) : Bool :=
  Boundaries.contains blankBoundaries c.toNat

end CardLore.Text
