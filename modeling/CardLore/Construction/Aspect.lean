import CardLore.Construction.Draft

namespace CardLore.Aspect

def fields : Fields Aspect where
  kind := .aspect
  known := [
    ("icon", fun v => do
      let icon ← v.toText
      return fun r => { r with icon := some icon }),
    ("verbicon", fun v => do
      let icon ← v.toText
      return fun r => { r with verbicon := some icon })]
  addOther key value r := { r with others := r.others ++ [(key, value)] }

def addStatement (d : Draft Aspect) (s : Statement) : Except Refusal (Draft Aspect) :=
  match s.value with
  | .set key value => d.assign fields key value s.span
  | .induce recipe chance => do
    let d ← d.reserve .aspect "induce" s.span
    return d.modify fun r => { r with induces := some ⟨recipe, chance⟩ }
  | .xtrigger x => .ok (d.modify fun r => { r with xtriggers := r.xtriggers ++ [x] })
  | _ => .error ⟨.notAllowed .aspect, s.span⟩

-- The aspect with the given signature that the statements describe.
def build (signature : Aspect) (statements : List Statement) : Except Refusal Aspect := do
  return (← statements.foldlM addStatement (.ofRecord signature)).record

end CardLore.Aspect
