import CardLore.Merge.Definition

namespace CardLore

-- A problem that the definitions of a run have with each other. A cycle lists its members from the
-- one at which it was noticed, in parent order.
inductive Conflict where
  | duplicate (definition existing : Definition)
  | unresolved (definition : Definition) (parent : Key)
  | cycle (definition : Definition) (members : List Definition)

namespace Conflict

def code : Conflict → String
  | duplicate .. => "E300"
  | unresolved .. => "E301"
  | cycle .. => "E302"

def message : Conflict → Text
  | duplicate d existing =>
    let place := if existing.file = d.file then s!"twice in {d.file}"
      else s!"in both {existing.file} and {d.file}"
    Text.concat ["duplicate definition of ", d.kind.name, " '", d.key, "': defined ", place]
  | unresolved d parent =>
    Text.concat [d.kind.name, " '", d.key, "' inherits from '", parent, "', but no ", d.kind.name,
      " with that id is defined"]
  | cycle d members =>
    Text.concat ["inheritance cycle: ",
      Text.join " -> " ((members.map fun m => m.key.text) ++ [d.key.text])]

def labels : Conflict → List Label
  | duplicate d existing =>
    [⟨d.span, "redefined here", .primary⟩, .secondary existing.span "first defined here"]
  | unresolved d _ => [.primary d.span]
  | cycle d _ => [.primary d.span]

def diagnostic (c : Conflict) : Diagnostic :=
  ⟨.error, c.code, c.message, c.labels, []⟩

end Conflict

end CardLore
