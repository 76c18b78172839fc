import CardLore.Construction.Draft

namespace CardLore.Card

def fields : Fields Card where
  kind := .card
  known := [
    ("icon", fun v => do
      let icon ← v.toText
      return fun r => { r with icon := some icon }),
    ("verbicon", fun v => do
      let icon ← v.toText
      return fun r => { r with verbicon := some icon }),
    ("resaturate", fun v => do
      let resaturate ← v.toBool
      return fun r => { r with resaturate })]
  addOther key value r := { r with others := r.others ++ [(key, value)] }

-- A slot under its verb, behind the ones that the verb has already.
def addSlot (slots : List (Key × List Slot)) (verb : Key) (slot : Slot) : List (Key × List Slot) :=
  match slots with
  | [] => [(verb, [slot])]
  | (v, own) :: rest =>
    if v = verb then (v, own ++ [slot]) :: rest else (v, own) :: addSlot rest verb slot

-- Takes note of a `unique` statement; `own` and `other` name the two forms of it.
def reserveUnique (d : Draft Card) (own other : String) (twice : Span → Offence) (span : Span) :
    Except Refusal (Draft Card) :=
  match d.used.lookup own, d.used.lookup other with
  | some first, _ => .error ⟨twice first, span⟩
  | none, some first => .error ⟨.uniqueAndGroup first, span⟩
  | none, none => .ok { d with used := d.used ++ [(own, span)] }

def addStatement (d : Draft Card) (s : Statement) : Except Refusal (Draft Card) :=
  match s.value with
  | .set key value => d.assign fields key value s.span
  | .induce recipe chance => do
    let d ← d.reserve .card "induce" s.span
    return d.modify fun r => { r with induces := some ⟨recipe, chance⟩ }
  | .unique none => do
    let d ← reserveUnique d "unique" "group" .uniqueTwice s.span
    return d.modify fun r => { r with unique := true }
  | .unique (some group) => do
    let d ← reserveUnique d "group" "unique" .groupTwice s.span
    return d.modify fun r => { r with uniquenessGroup := some group }
  | .slot (some verb) slot => .ok (d.modify fun r => { r with slots := addSlot r.slots verb slot })
  | .xtrigger x => .ok (d.modify fun r => { r with xtriggers := r.xtriggers ++ [x] })
  | _ => .error ⟨.notAllowed .card, s.span⟩

-- An aspect of the card's signature; each aspect is given once.
def addAspect (aspects : List (Key × Int)) (entry : Located (Key × Int)) :
    Except Refusal (List (Key × Int)) :=
  if (aspects.lookup entry.value.1).isSome then
    .error ⟨.duplicateAspect entry.value.1, entry.span⟩
  else .ok (aspects ++ [entry.value])

-- The card with the given signature and aspects that the statements describe.
def build (signature : Card) (aspects : List (Located (Key × Int))) (statements : List Statement) :
    Except Refusal Card := do
  let aspects ← aspects.foldlM addAspect []
  return (← statements.foldlM addStatement (.ofRecord { signature with aspects })).record

end CardLore.Card
