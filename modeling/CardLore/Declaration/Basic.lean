import CardLore.Component.Basic
import CardLore.Source.Span

namespace CardLore

-- A component with its attributes and the component that it inherits from.
structure ComponentDeclaration where
  id : Key
  attributes : List Attribute
  component : Component
  inherits : Option Key
  span : Span

-- A declaration: a namespace with its body, or a component.
inductive Declaration where
  | scope (id : Key) (attributes : List Attribute) (body : List Declaration) (span : Span)
  | component (declaration : ComponentDeclaration)

structure FileTree where
  file : String
  attributes : List Attribute
  declarations : List Declaration

end CardLore
