import CardLore.Construction.Draft

namespace CardLore

inductive Quantity where
  | effect
  | aspect
  | purge
  | draw
  | halt
  | delete
deriving DecidableEq, Repr

namespace Quantity

def all : List Quantity := [effect, aspect, purge, draw, halt, delete]

-- The word that starts a statement of the quantity.
def keyword : Quantity → String
  | effect => "effect"
  | aspect => "aspect"
  | purge => "purge"
  | draw => "draw"
  | halt => "halt"
  | delete => "delete"

def ofKeyword? (word : String) : Option Quantity :=
  all.find? (·.keyword == word)

-- What an entry of the quantity is called in messages.
def entryName : Quantity → String
  | effect => "effect"
  | aspect => "aspect"
  | purge => "purge"
  | draw => "draw"
  | halt => "halted verb"
  | delete => "deleted verb"

-- Effects and aspects change what is there; the other quantities are counts.
def isChange : Quantity → Bool
  | effect | aspect => true
  | _ => false

def entries : Quantity → Recipe → List (Key × Amount)
  | effect, r => r.effects
  | aspect, r => r.aspects
  | purge, r => r.purge
  | draw, r => r.draws
  | halt, r => r.halt
  | delete, r => r.delete

def withEntries (entries : List (Key × Amount)) (r : Recipe) : Quantity → Recipe
  | effect => { r with effects := entries }
  | aspect => { r with aspects := entries }
  | purge => { r with purge := entries }
  | draw => { r with draws := entries }
  | halt => { r with halt := entries }
  | delete => { r with delete := entries }

end Quantity

namespace Expulsion

-- The expulsion of the given elements, each of which is named once.
def build (entries : List (Located (Key × Int))) : Except Refusal Expulsion := do
  let elements ← entries.foldlM
    (fun elements e => addKeyed elements "expelled element" e.value.1 e.value.2 e.span) []
  return ⟨elements⟩

end Expulsion

namespace Recipe

def fields : Fields Recipe where
  kind := .recipe
  known := [
    ("warmup", fun v => do
      let warmup ← v.toCount
      return fun r => { r with warmup }),
    ("maxexecutions", fun v => do
      let maxExecutions ← v.toCount
      return fun r => { r with maxExecutions }),
    ("craftable", fun v => do
      let craftable ← v.toBool
      return fun r => { r with craftable }),
    ("hintonly", fun v => do
      let hintOnly ← v.toBool
      return fun r => { r with hintOnly }),
    ("burn", fun v => do
      let burn ← v.toText
      return fun r => { r with burn := some burn }),
    ("portal", fun v => do
      let portal ← v.toText
      return fun r => { r with portal := some portal }),
    ("style", fun v => do
      let style ← v.toMember WarmupStyle.enumeration
      return fun r => { r with style })]
  addOther key value r := { r with others := r.others ++ [(key, value)] }

def addStatement (d : Draft Recipe) (s : Statement) : Except Refusal (Draft Recipe) :=
  match s.value with
  | .set key value => d.assign fields key value s.span
  | .require requirement =>
    .ok (d.modify fun r => { r with requirements := r.requirements ++ [requirement] })
  | .quantity word element amount =>
    match Quantity.ofKeyword? word with
    | some q => do
      let entries ← addKeyed (q.entries d.record) q.entryName element amount s.span
      return d.modify (q.withEntries entries ·)
    | none => .error ⟨.notAllowed .recipe, s.span⟩
  | .mutate mutation => .ok (d.modify fun r => { r with mutations := r.mutations ++ [mutation] })
  | .reference "ending" target => do
    let d ← d.reserve .recipe "ending" s.span
    return d.modify fun r => { r with ending := some target }
  | .slot none slot => do
    let d ← d.reserve .recipe "slot" s.span
    return d.modify fun r => { r with slot := some slot }
  | .branch branch => .ok (d.modify fun r => { r with branches := r.branches ++ [branch] })
  | _ => .error ⟨.notAllowed .recipe, s.span⟩

-- The recipe with the given signature that the statements describe.
def build (signature : Recipe) (statements : List Statement) : Except Refusal Recipe := do
  return (← statements.foldlM addStatement (.ofRecord signature)).record

end Recipe

end CardLore
