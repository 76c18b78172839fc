import CardLore.Literal.Parser
import CardLore.Toml.Moment
import CardLore.Toml.Table

namespace CardLore.Toml

def skipLines : (bound : Nat) → List Char → Option (List Char)
  | 0, cs => some cs
  | bound + 1, cs =>
    match cs.dropWhile isSpaceOrLineEnd with
    | '#' :: rest => (skipComment? ('#' :: rest)).bind (skipLines bound)
    | cs => some cs

-- A string as a value.
def text : Reader Value := fun cs => do
  let (read, rest) ← orMalformed (string cs)
  return (.string (Text.ofChars read), rest)

mutual

-- A value of any kind. Arrays and tables may nest `depth` deep in it.
def value : (bound depth : Nat) → Reader Value
  | 0, _, _ => .error .malformed
  | bound + 1, depth, cs => match cs with
    | '"' :: _ => text cs
    | '\'' :: _ => text cs
    | 't' :: 'r' :: 'u' :: 'e' :: rest => .ok (.bool true, rest)
    | 'f' :: 'a' :: 'l' :: 's' :: 'e' :: rest => .ok (.bool false, rest)
    | '[' :: rest => do
      if depth = 0 then .error .tooDeep
      let (items, rest) ← items bound (depth - 1) rest
      return (.array items, rest)
    | '\x7b' :: rest => do
      if depth = 0 then .error .tooDeep
      match skipSpace rest with
      | '\x7d' :: rest => return (.table [], rest)
      | rest =>
        let (members, rest) ← members bound (depth - 1) [] [] rest
        return (.table members, rest)
    | _ => match moment cs with
      | some found => .ok found
      | none => number cs

-- The items of an array, up to its closing bracket. A comma may stand behind the last one.
def items : (bound depth : Nat) → Reader (List Value)
  | 0, _, _ => .error .malformed
  | bound + 1, depth, cs => do
    match ← orMalformed (skipLines cs.length cs) with
    | ']' :: rest => return ([], rest)
    | cs =>
      let (item, rest) ← value bound depth cs
      match ← orMalformed (skipLines rest.length rest) with
      | ']' :: rest => return ([item], rest)
      | ',' :: rest =>
        let (others, rest) ← items bound depth rest
        return (item :: others, rest)
      | _ => .error .malformed

-- The members of an inline table, up to its closing brace. What a member has inside of it cannot be
-- extended by a later one: `closed` are the keys of such members.
def members : (bound depth : Nat) → (closed : List (List Text)) → Table → Reader Table
  | 0, _, _, _, _ => .error .malformed
  | bound + 1, depth, closed, table, cs => do
    let (path, rest) ← orMalformed (key cs)
    match rest with
    | '=' :: rest =>
      let (item, rest) ← value bound depth (skipSpace rest)
      if closed.any (·.isPrefixOf path) then .error .malformed
      let table ← orMalformed (table.addAt false path item)
      match skipSpace rest with
      | '\x7d' :: rest => return (table, rest)
      | ',' :: rest =>
        let closed := if item.isComposite then path :: closed else closed
        members bound depth closed table (skipSpace rest)
      | _ => .error .malformed
    | _ => .error .malformed

end

end CardLore.Toml
