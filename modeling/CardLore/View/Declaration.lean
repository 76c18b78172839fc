import CardLore.Declaration.Basic
import CardLore.View.Component

namespace CardLore

open View

def ComponentDeclaration.view (d : ComponentDeclaration) : View :=
  .record "ComponentUnit" [
    ("id", .key d.id), ("attrs", ofList Attribute.view d.attributes),
    ("component", d.component.view), ("inherits", ofOption .key d.inherits), ("span", .span d.span)]

mutual

def Declaration.view : Declaration → View
  | .scope id attributes body place =>
    .record "Namespace" [
      ("id", .key id), ("attrs", ofList Attribute.view attributes), ("units", .list (viewAll body)),
      ("span", .span place)]
  | .component d => d.view

def Declaration.viewAll : List Declaration → List View
  | [] => []
  | d :: rest => d.view :: viewAll rest

end

def FileTree.view (t : FileTree) : View :=
  .record "FileTree" [
    ("filename", .text t.file), ("attributes", ofList Attribute.view t.attributes),
    ("units", .list (Declaration.viewAll t.declarations))]

end CardLore
