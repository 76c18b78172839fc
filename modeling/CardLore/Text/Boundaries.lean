namespace CardLore.Text

-- A code point is a member when an odd number of boundaries lie at or below it.
def Boundaries.contains : List Nat → Nat → Bool
  | [], _ => false
  | boundary :: rest, code => if code < boundary then false else !contains rest code

end CardLore.Text
