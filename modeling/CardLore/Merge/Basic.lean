import CardLore.Component.Inherit
import CardLore.Corpus
import CardLore.Merge.Conflict

namespace CardLore

-- What a declaration does to a run: it opens a namespace, or defines a component in one.
inductive MergeEvent where
  | opening (key : Key) (attributes : List Attribute)
  | definition (scope : Key) (declaration : ComponentDeclaration)

mutual

-- The events of a declaration that stands in the namespace `scope`.
def Declaration.events (scope : Key) : Declaration → List MergeEvent
  | .scope id attributes body _ =>
    .opening (scope.child id) attributes :: Declaration.eventsOf (scope.child id) body
  | .component d => [.definition scope d]

def Declaration.eventsOf (scope : Key) : List Declaration → List MergeEvent
  | [] => []
  | d :: rest => d.events scope ++ Declaration.eventsOf scope rest

end

def FileTree.events (t : FileTree) : List MergeEvent :=
  Declaration.eventsOf .empty t.declarations

-- The state of a merge: the definitions and conflicts so far, and the components whose parents are
-- resolved already.
structure Merger where
  table : DefinitionTable
  conflicts : List Conflict
  attributes : List Attribute
  namespaces : List (Key × NamespaceContent)
  resolved : List ((Kind × Key) × Component)
  files : Nat

namespace Merger

def empty : Merger := ⟨.empty, [], [], [], [], 0⟩

-- Changes the content of a namespace; one that was not opened before starts empty, as the last one.
def updateNamespace (key : Key) (f : NamespaceContent → NamespaceContent) :
    List (Key × NamespaceContent) → List (Key × NamespaceContent)
  | [] => [(key, f ⟨[], []⟩)]
  | (k, content) :: rest =>
    if k = key then (k, f content) :: rest else (k, content) :: updateNamespace key f rest

def addConflict (m : Merger) (c : Conflict) : Merger :=
  { m with conflicts := m.conflicts ++ [c] }

def openNamespace (m : Merger) (key : Key) (attributes : List Attribute) : Merger :=
  let add (content : NamespaceContent) : NamespaceContent :=
    { content with attributes := content.attributes ++ attributes }
  { m with namespaces := updateNamespace key add m.namespaces }

-- Adds a definition, unless there is one of its kind and key already.
def define (m : Merger) (d : Definition) : Merger :=
  match m.table.lookup? d.kind d.key with
  | some existing => m.addConflict (.duplicate d existing)
  | none =>
    let m := { m with table := m.table.add d }
    let list (content : NamespaceContent) : NamespaceContent :=
      { content with components := content.components ++ [d.key] }
    if d.scope.isEmpty then m
    else { m with namespaces := updateNamespace d.scope list m.namespaces }

def apply (m : Merger) : MergeEvent → Merger
  | .opening key attributes => m.openNamespace key attributes
  | .definition scope d => m.define (.ofDeclaration scope d)

def merge (m : Merger) (t : FileTree) : Merger :=
  t.events.foldl apply
    { m with attributes := m.attributes ++ t.attributes, files := m.files + 1 }

-- Keeps the resolved component of a definition.
def remember (m : Merger) (d : Definition) (c : Component) : Merger :=
  { m with resolved := m.resolved ++ [((d.kind, d.key), c)] }

-- The component of a definition with everything that it inherits. `stack` holds the definitions
-- that wait for it, the latest last: meeting one of them again is a cycle. The stack holds no
-- definition twice, so `bound` is not reached if it exceeds the number of definitions. Chains of
-- parents are followed to their ends: how deep calls may nest when a program runs is left out of
-- this, so a merge that succeeds here may run out of stack there if a chain has hundreds of
-- members.
def resolve : (bound : Nat) → List Definition → Definition → Merger → Component × Merger
  | 0, _, d, m => (d.component, m)
  | bound + 1, stack, d, m =>
    match m.resolved.lookup (d.kind, d.key) with
    | some component => (component, m)
    | none => match d.inherits with
      | none => (d.component, m.remember d d.component)
      | some name =>
        if stack.any (·.sameIdentity d) then
          let members := stack.dropWhile fun e => !e.sameIdentity d
          (d.component, m.addConflict (.cycle d members))
        else match m.table.resolve? d.kind name d.scope with
          | none => (d.component, (m.addConflict (.unresolved d name)).remember d d.component)
          | some parent =>
            let (inherited, m) := resolve bound (stack ++ [d]) parent m
            let component := d.component.inherit inherited
            (component, m.remember d component)

def resolveOne (m : Merger) (d : Definition) : Merger :=
  (resolve (m.table.size + 1) [] d m).2

def resolveInheritance (m : Merger) : Merger :=
  m.table.all.foldl resolveOne m

-- The component of a definition after inheritance.
def resolvedComponent (m : Merger) (d : Definition) : Component :=
  (m.resolved.lookup (d.kind, d.key)).getD d.component

-- Gives a key its attributes; a key that has some already keeps its place.
def putAttributes (key : Key) (attributes : List Attribute) :
    List (Key × List Attribute) → List (Key × List Attribute)
  | [] => [(key, attributes)]
  | (k, own) :: rest =>
    if k = key then (k, attributes) :: rest else (k, own) :: putAttributes key attributes rest

-- The attributes of the definitions that have any.
def componentAttributes (m : Merger) : List (Key × List Attribute) :=
  m.table.all.foldl
    (fun entries d =>
      if d.attributes.isEmpty then entries else putAttributes d.key d.attributes entries)
    []

def corpus (m : Merger) : Corpus :=
  { Corpus.ofComponents (m.table.all.map fun d => (d.key, m.resolvedComponent d)) with
    attributes := m.attributes
    namespaces := m.namespaces
    componentAttributes := m.componentAttributes }

-- Resolves all parents and gives the corpus, or all conflicts if there are any.
def finish (m : Merger) : Except (List Conflict) Corpus × Merger :=
  let m := m.resolveInheritance
  (if m.conflicts.isEmpty then .ok m.corpus else .error m.conflicts, m)

end Merger

def mergeTrees (trees : List FileTree) : Except (List Conflict) Corpus :=
  (trees.foldl Merger.merge .empty).finish.1

end CardLore
