import CardLore.Component.Basic
import CardLore.View.Basic

namespace CardLore

open View

def Attribute.view (a : Attribute) : View :=
  .record "Attribute" [("key", .key a.key), ("value", ofLiteral a.value)]

def Induction.view (i : Induction) : View :=
  .record "Induction" [("recipe", .key i.recipe), ("chance", .chance i.chance)]

def FilterKind.view : FilterKind → View
  | accept => .member "SlotFilterKind" "ACCEPT" "accept"
  | forbid => .member "SlotFilterKind" "FORBID" "forbid"

def SlotFilter.view (f : SlotFilter) : View :=
  .record "SlotFilter" [("kind", f.kind.view), ("element", .key f.element), ("amount", .int f.amount)]

def Slot.view (s : Slot) : View :=
  .record "Slot" [
    ("id", .key s.id), ("label", .text s.label), ("description", .text s.description),
    ("consumes", .bool s.consumes), ("greedy", .bool s.greedy),
    ("requirements", ofList SlotFilter.view s.requirements)]

def Xtrigger.view (x : Xtrigger) : View :=
  let (name, target) := match x.reaction with
    | .transform => ("XtriggerTransform", "transforms_to")
    | .spawn => ("XtriggerSpawn", "creates")
    | .mutate => ("XtriggerMutate", "adds_to_catalyst")
  .record name [("catalyst", .key x.catalyst), (target, .key x.target), ("amount", .int x.amount),
    ("chance", .chance x.chance)]

def Operation.view (o : Operation) : View :=
  .record "ValueOperation" [("amount", .int o.amount), ("is_set", .bool o.isSet)]

def Amount.view : Amount → View
  | count n => .int n
  | change operation => operation.view

def RequirementKind.view : RequirementKind → View
  | basic => .member "RequirementKind" "BASIC" "basic"
  | table => .member "RequirementKind" "TABLE" "table"
  | extant => .member "RequirementKind" "EXTANT" "extant"

def Threshold.view : Threshold → View
  | number n => .int n
  | element k => .key k

def Requirement.view (r : Requirement) : View :=
  .record "Requirement" [("kind", r.kind.view), ("element", .key r.element), ("amount", r.amount.view)]

def Mutation.view (m : Mutation) : View :=
  .record "Mutation" [("id", .key m.id), ("aspect", .key m.aspect), ("operation", m.operation.view)]

def Expulsion.view (e : Expulsion) : View :=
  .record "Expulsion" [("elements", ofEntries .int e.elements)]

def BranchKind.view : BranchKind → View
  | link => .text "link"
  | goto => .text "goto"

def Branch.view (b : Branch) : View :=
  .record "Branch" [
    ("kind", b.kind.view), ("target", .key b.target), ("chance", ofOption .chance b.chance),
    ("requirements", ofList Requirement.view b.requirements), ("spawn", .bool b.spawn),
    ("expel", ofOption Expulsion.view b.expel)]

def Aspect.view (a : Aspect) : View :=
  .record "Aspect" [
    ("id", .key a.id), ("label", .text a.label), ("description", .text a.description),
    ("icon", ofOption .text a.icon), ("verbicon", ofOption .text a.verbicon),
    ("induces", ofOption Induction.view a.induces), ("decays_to", ofOption .key a.decaysTo),
    ("hidden", .bool a.hidden), ("xtriggers", ofList Xtrigger.view a.xtriggers),
    ("others", ofEntries ofLiteral a.others)]

def Card.view (c : Card) : View :=
  .record "Card" [
    ("id", .key c.id), ("label", .text c.label), ("description", .text c.description),
    ("icon", ofOption .text c.icon), ("verbicon", ofOption .text c.verbicon),
    ("induces", ofOption Induction.view c.induces), ("decays_to", ofOption .key c.decaysTo),
    ("hidden", .bool c.hidden), ("aspects", ofEntries .int c.aspects),
    ("lifetime", ofOption .int c.lifetime), ("resaturate", .bool c.resaturate),
    ("unique", .bool c.unique), ("uniqueness_group", ofOption .key c.uniquenessGroup),
    ("slots", ofEntries (ofList Slot.view) c.slots),
    ("xtriggers", ofList Xtrigger.view c.xtriggers), ("others", ofEntries ofLiteral c.others)]

def Deck.view (d : Deck) : View :=
  .record "Deck" [
    ("id", .key d.id), ("label", .text d.label), ("description", .text d.description),
    ("default", ofOption .key d.default),
    ("cards", ofList (fun (card, description) => .pair (.key card) (ofOption .text description)) d.cards),
    ("is_portal_deck", .bool d.isPortalDeck)]
    [("resets_on_exhaustion", d.resetsOnExhaustion)]

def Verb.view (v : Verb) : View :=
  .record "Verb" [
    ("id", .key v.id), ("label", .text v.label), ("description", .text v.description),
    ("slot", ofOption Slot.view v.slot), ("others", ofEntries ofLiteral v.others)]

def WarmupStyle.view : WarmupStyle → View
  | none => .member "WarmupStyle" "NONE" "none"
  | grand => .member "WarmupStyle" "GRAND" "grand"
  | melancholy => .member "WarmupStyle" "MELANCHOLY" "melancholy"
  | pale => .member "WarmupStyle" "PALE" "pale"
  | vile => .member "WarmupStyle" "VILE" "vile"
  | important => .member "WarmupStyle" "IMPORTANT" "important"

def Recipe.view (r : Recipe) : View :=
  .record "Recipe" [
    ("id", .key r.id), ("verb", .key r.verb), ("label", .text r.label),
    ("description", .text r.description), ("end_description", .text r.endDescription),
    ("burn", ofOption .text r.burn), ("portal", ofOption .text r.portal),
    ("requirements", ofList Requirement.view r.requirements),
    ("max_executions", .int r.maxExecutions), ("warmup", .int r.warmup),
    ("craftable", .bool r.craftable), ("hint_only", .bool r.hintOnly),
    ("slot", ofOption Slot.view r.slot), ("effects", ofEntries Amount.view r.effects),
    ("purge", ofEntries Amount.view r.purge), ("aspects", ofEntries Amount.view r.aspects),
    ("draws", ofEntries Amount.view r.draws), ("mutations", ofList Mutation.view r.mutations),
    ("halt", ofEntries Amount.view r.halt), ("delete", ofEntries Amount.view r.delete),
    ("ending", ofOption .key r.ending), ("style", r.style.view),
    ("branches", ofList Branch.view r.branches), ("others", ofEntries ofLiteral r.others)]

def Legacy.view (l : Legacy) : View :=
  .record "Legacy" [
    ("id", .key l.id), ("label", .text l.label), ("description", .text l.description),
    ("start_description", .text l.startDescription), ("image", .text l.image),
    ("starting_verb", ofOption .key l.startingVerb),
    ("starting_cards", ofEntries .int l.startingCards),
    ("status_bar_elems", ofList .key l.statusBarElements),
    ("exclude_after_legacies", ofList .key l.excludeAfterLegacies), ("new_start", .bool l.newStart),
    ("from_ending", ofOption .key l.fromEnding),
    ("available_without_ending_match", .bool l.availableWithoutEndingMatch),
    ("others", ofEntries ofLiteral l.others)]

def EndingMusic.view : EndingMusic → View
  | grand => .member "EndingMusicKind" "GRAND" "grand"
  | melancholy => .member "EndingMusicKind" "MELANCHOLY" "melancholy"
  | vile => .member "EndingMusicKind" "VILE" "vile"

def EndingAnimation.view : EndingAnimation → View
  | dramaticLight => .member "EndingAnimationKind" "DRAMATIC_LIGHT" "dramaticlight"
  | dramaticLightCool => .member "EndingAnimationKind" "DRAMATIC_LIGHT_COOL" "dramaticlightcool"
  | dramaticLightEvil => .member "EndingAnimationKind" "DRAMATIC_LIGHT_EVIL" "dramaticlightevil"

def Ending.view (e : Ending) : View :=
  .record "Ending" [
    ("id", .key e.id), ("label", .text e.label), ("description", .text e.description),
    ("image", .text e.image), ("music", e.music.view), ("animation", e.animation.view),
    ("achievement", .text e.achievement), ("others", ofEntries ofLiteral e.others)]

def Component.view : Component → View
  | aspect r => r.view
  | card r => r.view
  | deck r => r.view
  | recipe r => r.view
  | verb r => r.view
  | legacy r => r.view
  | ending r => r.view

end CardLore
