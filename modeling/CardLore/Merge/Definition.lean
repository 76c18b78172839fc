import CardLore.Declaration.Basic
import CardLore.Diagnostic.Basic

namespace CardLore

structure Definition where
  key : Key
  component : Component
  span : Span
  scope : Key
  inherits : Option Key
  attributes : List Attribute

namespace Definition

def kind (d : Definition) : Kind := d.component.kind

def file (d : Definition) : String := d.span.file

-- The declaration of a component in a namespace.
def ofDeclaration (scope : Key) (d : ComponentDeclaration) : Definition where
  key := scope.child d.id
  component := d.component.withId (scope.child d.id)
  span := d.span
  scope := scope
  inherits := d.inherits
  attributes := d.attributes

-- Both are definitions of one kind and key.
def sameIdentity (d e : Definition) : Bool :=
  d.kind = e.kind && d.key = e.key

end Definition

-- Definitions in the order in which they were made, no two of one kind and key.
structure DefinitionTable where
  definitions : List Definition

namespace DefinitionTable

def empty : DefinitionTable := ⟨[]⟩

def lookup? (t : DefinitionTable) (kind : Kind) (key : Key) : Option Definition :=
  t.definitions.find? fun d => d.kind = kind && d.key = key

-- A definition behind the others.
def add (t : DefinitionTable) (d : Definition) : DefinitionTable :=
  ⟨t.definitions ++ [d]⟩

-- The definition that a name stands for in a namespace: one below the namespace if there is one,
-- else one under the name itself.
def resolve? (t : DefinitionTable) (kind : Kind) (name scope : Key) : Option Definition :=
  if scope.isEmpty then t.lookup? kind name
  else (t.lookup? kind (scope.child name)).or (t.lookup? kind name)

-- The kinds of the definitions, in the order of their first definitions.
def kinds (t : DefinitionTable) : List Kind :=
  (t.definitions.map (·.kind)).eraseDups

def all (t : DefinitionTable) : List Definition :=
  t.kinds.flatMap fun kind => t.definitions.filter (·.kind = kind)

def size (t : DefinitionTable) : Nat :=
  t.definitions.length

end DefinitionTable

end CardLore
