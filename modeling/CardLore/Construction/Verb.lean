import CardLore.Construction.Draft

namespace CardLore.Verb

def fields : Fields Verb where
  kind := .verb
  known := []
  addOther key value r := { r with others := r.others ++ [(key, value)] }

def addStatement (d : Draft Verb) (s : Statement) : Except Refusal (Draft Verb) :=
  match s.value with
  | .set key value => d.assign fields key value s.span
  | _ => .error ⟨.notAllowed .verb, s.span⟩

-- The verb with the given signature that the statements describe.
def build (signature : Verb) (statements : List Statement) : Except Refusal Verb := do
  return (← statements.foldlM addStatement (.ofRecord signature)).record

end CardLore.Verb
