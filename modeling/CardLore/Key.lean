import CardLore.Text.Quoted

namespace CardLore

structure Key where
  text : Text
deriving DecidableEq, Repr, Inhabited

namespace Key

def empty : Key := ⟨[]⟩

def ofChars (cs : List Char) : Key := ⟨Text.ofChars cs⟩

def isEmpty (key : Key) : Bool := key.text.isEmpty

instance : Coe Key Text := ⟨Key.text⟩

instance : Coe String Key := ⟨fun s => ⟨s⟩⟩

-- The name below this key. Below the empty key a name stands for itself.
def child (key name : Key) : Key :=
  if key.isEmpty then name else ⟨key.text ++ Text.ofString "." ++ name.text⟩

-- The key as dumps show it.
def display (key : Key) : Text :=
  Text.concat ["DefKey(", Text.quoted key.text, ")"]

end Key

-- Characters that an identifier may hold.
def isKeyChar (c : Char) : Bool :=
  c.isAlphanum || c == '_' || c == '-' || c == '$' || c == '.'

end CardLore
