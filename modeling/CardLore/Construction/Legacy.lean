import CardLore.Construction.Draft

namespace CardLore.Legacy

def fields : Fields Legacy where
  kind := .legacy
  known := [
    ("image", fun v => do
      let image ← v.toText
      return fun r => { r with image }),
    ("newstart", fun v => do
      let newStart ← v.toBool
      return fun r => { r with newStart }),
    ("availablewithoutendingmatch", fun v => do
      let availableWithoutEndingMatch ← v.toBool
      return fun r => { r with availableWithoutEndingMatch })]
  addOther key value r := { r with others := r.others ++ [(key, value)] }

-- An element of the status bar; naming one twice weighs more than naming too many.
def addStatus (elements : List Key) (target : Key) (span : Span) : Except Refusal (List Key) :=
  if target ∈ elements then .error ⟨.duplicateEntry "status bar element" target, span⟩
  else if elements.length = maxStatusElements then .error ⟨.tooManyStatusElements, span⟩
  else .ok (elements ++ [target])

def addExcluded (excluded : List Key) (target : Key) (span : Span) : Except Refusal (List Key) :=
  if target ∈ excluded then .error ⟨.duplicateEntry "excluded legacy" target, span⟩
  else .ok (excluded ++ [target])

def addStatement (d : Draft Legacy) (s : Statement) : Except Refusal (Draft Legacy) :=
  match s.value with
  | .set key value => d.assign fields key value s.span
  | .reference "verb" target => do
    let d ← d.reserve .legacy "verb" s.span
    return d.modify fun r => { r with startingVerb := some target }
  | .reference "ending" target => do
    let d ← d.reserve .legacy "ending" s.span
    return d.modify fun r => { r with fromEnding := some target }
  | .reference "status" target => do
    let elements ← addStatus d.record.statusBarElements target s.span
    return d.modify fun r => { r with statusBarElements := elements }
  | .reference "exclude" target => do
    let excluded ← addExcluded d.record.excludeAfterLegacies target s.span
    return d.modify fun r => { r with excludeAfterLegacies := excluded }
  | .startingCard card amount => do
    let cards ← addKeyed d.record.startingCards "starting card" card amount s.span
    return d.modify fun r => { r with startingCards := cards }
  | _ => .error ⟨.notAllowed .legacy, s.span⟩

-- The legacy with the given signature that the statements describe.
def build (signature : Legacy) (statements : List Statement) : Except Refusal Legacy := do
  return (← statements.foldlM addStatement (.ofRecord signature)).record

end CardLore.Legacy
