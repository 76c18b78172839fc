import CardLore.Text.CodePoint

namespace CardLore

inductive Literal where
  | null
  | bool (value : Bool)
  | int (value : Int)
  | float (value : Float)
  | string (value : Text)
  | array (items : List Literal)
  | object (members : List (Text × Literal))
deriving Inhabited, BEq

namespace Literal

-- The word for a value's type in messages.
def typeName : Literal → String
  | null => "null"
  | bool _ => "boolean"
  | int _ => "number"
  | float _ => "number"
  | string _ => "string"
  | array _ => "array"
  | object _ => "object"

end Literal

end CardLore
