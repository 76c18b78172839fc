import CardLore.Diagnostic.Basic
import CardLore.Key
import CardLore.Kind
import CardLore.Probability

namespace CardLore

-- A legacy shows at most this many elements in its status bar.
def maxStatusElements : Nat := 4

inductive Offence where
  | notAllowed (kind : Kind)
  | reassigned (key : Key) (kind : Kind) (first : Span)
  | repeatedMember (name : Text)
  | collidingMember (name : Text)
  | signatureKey (key : Key) (kind : Kind)
  | wrongType (key : Key) (expected : String) (value : Literal)
  | bodyNotObject (value : Literal)
  | memberNotString (name : String) (value : Literal)
  | duplicateAspect (key : Key)
  | duplicateEntry (what : String) (key : Key)
  | uniqueTwice (first : Span)
  | groupTwice (first : Span)
  | uniqueAndGroup (first : Span)
  | repeatedStatement (name : String) (kind : Kind) (first : Span)
  | secondDefault (first : Span)
  | outsideEnumeration (value : Text) (key : Key) (allowed : List String)
  | imageMissing
  | badChance (percent : Int)
  | repeatedModifier (name : String)
  | tooManyStatusElements

namespace Offence

def code : Offence → String
  | notAllowed .. => "E100"
  | reassigned .. | repeatedMember .. | collidingMember .. => "E200"
  | signatureKey .. => "E201"
  | wrongType .. | bodyNotObject .. | memberNotString .. => "E202"
  | duplicateAspect .. | duplicateEntry .. => "E203"
  | uniqueTwice .. | groupTwice .. | uniqueAndGroup .. => "E204"
  | repeatedStatement .. => "E205"
  | secondDefault .. => "E206"
  | outsideEnumeration .. => "E207"
  | imageMissing => "E208"
  | badChance .. => "E209"
  | repeatedModifier .. => "E210"
  | tooManyStatusElements => "E211"

def message : Offence → Text
  | notAllowed kind => s!"statement not allowed in a {kind.name}"
  | reassigned key kind _ =>
    Text.concat ["key '", key, "' is already assigned with set for this ", kind.name]
  | repeatedMember name =>
    Text.concat ["key '", name, "' is assigned more than once in this object"]
  | collidingMember name =>
    Text.concat ["key '", name, "' is assigned more than once in this ending"]
  | signatureKey key kind =>
    Text.concat ["'", key, "' cannot be set outside of the ", kind.name, " signature"]
  | wrongType key expected value =>
    Text.concat ["key '", key, "' must be of type ", expected, ", got ", value.typeName]
  | bodyNotObject value =>
    s!"the content of an ending must be an object, got {value.typeName}"
  | memberNotString name value =>
    s!"key '{name}' must have a value of type string, got {value.typeName}"
  | duplicateAspect key =>
    Text.concat ["duplicate aspect assignment: the aspect '", key,
      "' has already been declared on the card"]
  | duplicateEntry what key => Text.concat ["duplicate ", what, " '", key, "'"]
  | uniqueTwice _ => "'unique' may only appear once"
  | groupTwice _ => "'unique <group>' may only appear once"
  | uniqueAndGroup _ => "a card cannot be both 'unique' and in a uniqueness group"
  | repeatedStatement name kind _ => s!"'{name}' may only appear once in a {kind.name}"
  | secondDefault _ => "cannot set more than one default card in a deck"
  | outsideEnumeration value key allowed =>
    Text.concat ["value ", Text.quoted value, " for key '", key, "' must be one of: ",
      Text.join ", " (allowed.map Text.ofString)]
  | imageMissing => "key 'image' is required in an ending"
  | badChance percent => Probability.refusal (.int percent)
  | repeatedModifier name => s!"slot modifier '{name}' may only be given once"
  | tooManyStatusElements =>
    s!"a legacy may show at most {maxStatusElements} status bar elements"

-- The earlier statement that an offence is in conflict with.
def earlier? : Offence → Option Span
  | reassigned _ _ first => some first
  | uniqueTwice first => some first
  | groupTwice first => some first
  | uniqueAndGroup first => some first
  | repeatedStatement _ _ first => some first
  | secondDefault first => some first
  | _ => none

end Offence

structure Refusal where
  offence : Offence
  span : Span

-- The offence as an error at its place, with the earlier statement pointed out.
def Refusal.diagnostic (r : Refusal) : Diagnostic :=
  { Diagnostic.errorAt r.offence.code r.offence.message r.span with
    labels := .primary r.span ::
      (r.offence.earlier?.map (Label.secondary · "first set here")).toList }

end CardLore
