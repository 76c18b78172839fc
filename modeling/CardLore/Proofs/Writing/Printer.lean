import CardLore.Construction.Recipe
import CardLore.Declaration.Basic
import CardLore.Proofs.Writing.Lexeme

namespace CardLore

def writeIf (b : Bool) (l : Lexeme) : List Lexeme :=
  if b then [l] else []

-- Items with commas between them, up to a closing symbol.
def commaSeparated (close : String) : List (List Lexeme) → List Lexeme
  | [] => [.symbol close]
  | first :: others => first ++ (others.flatMap (.symbol "," :: ·) ++ [.symbol close])

-- Statements between braces, each in a line of its own.
def writeBlock (statements : List (List Lexeme)) : List Lexeme :=
  .symbol "\x7b" :: .lineEnd :: (statements.flatMap (· ++ [.lineEnd]) ++ [.symbol "\x7d"])

namespace Literal

mutual

-- A floating-point number has no lexemes.
def lexemes : Literal → List Lexeme
  | null => [.key "null"]
  | bool true => [.key "true"]
  | bool false => [.key "false"]
  | int n => [.number n]
  | float _ => []
  | string t => [.text t]
  | array items => .symbol "[" :: commaSeparated "]" (itemLexemes items)
  | object members => .symbol "\x7b" :: commaSeparated "\x7d" (memberLexemes members)

def itemLexemes : List Literal → List (List Lexeme)
  | [] => []
  | item :: items => item.lexemes :: itemLexemes items

def memberLexemes : List (Text × Literal) → List (List Lexeme)
  | [] => []
  | (name, value) :: members =>
    (.text name :: .symbol ":" :: value.lexemes) :: memberLexemes members

end

end Literal

theorem itemLexemes_eq_map (items : List Literal) :
    Literal.itemLexemes items = items.map (·.lexemes) := by
  induction items with
  | nil => rfl
  | cons item items ih => rw [Literal.itemLexemes, ih, List.map_cons]

-- A member of an object.
def memberLexeme (m : Text × Literal) : List Lexeme :=
  .text m.1 :: .symbol ":" :: m.2.lexemes

theorem memberLexemes_eq_map (members : List (Text × Literal)) :
    Literal.memberLexemes members = members.map memberLexeme := by
  induction members with
  | nil => rfl
  | cons m members ih =>
      obtain ⟨name, value⟩ := m
      rw [Literal.memberLexemes, ih, List.map_cons]
      rfl

def Attribute.lexemes (mark : String) (a : Attribute) : List Lexeme :=
  .symbol mark :: .symbol "[" :: .key a.key :: .symbol "=" :: (a.value.lexemes ++ [.symbol "]"])

-- An element with its amount.
def elementLexemes (entry : Key × Int) : List Lexeme :=
  [.key entry.1, .symbol ":", .number entry.2]

def SlotFilter.lexemes (f : SlotFilter) : List Lexeme :=
  writeIf (f.kind = .forbid) (.symbol "!") ++ elementLexemes (f.element, f.amount)

def Slot.lexemes (s : Slot) : List Lexeme :=
  writeIf s.consumes (.word "consume") ++ (writeIf s.greedy (.word "greedy") ++
    .word "slot" :: .key s.id :: .text s.label :: .text s.description :: .symbol "(" ::
      commaSeparated ")" (s.requirements.map (·.lexemes)))

def Reaction.lexemes : Reaction → List Lexeme
  | transform => []
  | spawn => [.word "spawn"]
  | mutate => [.word "mutate"]

def Xtrigger.lexemes (x : Xtrigger) : List Lexeme :=
  .word "xtrigger" :: .key x.catalyst :: .symbol "->" ::
    (x.reaction.lexemes ++ [.key x.target, .symbol ":", .number x.amount, .percent x.chance])

def Operation.lexemes (o : Operation) : List Lexeme :=
  writeIf o.isSet (.symbol "=") ++ [.number o.amount]

def Amount.lexemes : Amount → List Lexeme
  | count n => [.number n]
  | change operation => operation.lexemes

def RequirementKind.lexemes : RequirementKind → List Lexeme
  | basic => []
  | table => [.word "table"]
  | extant => [.word "extant"]

def Threshold.lexeme : Threshold → Lexeme
  | number n => .number n
  | element key => .key key

def Requirement.lexemes (r : Requirement) : List Lexeme :=
  r.kind.lexemes ++ [.key r.element, .symbol ":", r.amount.lexeme]

def Expulsion.lexemes (e : Expulsion) : List Lexeme :=
  .word "expel" :: .symbol "(" :: commaSeparated ")" (e.elements.map elementLexemes)

def BranchKind.lexeme : BranchKind → Lexeme
  | link => .word "link"
  | goto => .word "goto"

def Branch.lexemes (b : Branch) : List Lexeme :=
  b.kind.lexeme :: .key b.target :: (b.chance.toList.map .percent ++
    .symbol "(" :: (commaSeparated ")" (b.requirements.map (·.lexemes)) ++
      (writeIf b.spawn (.word "spawn") ++ b.expel.toList.flatMap (·.lexemes))))

def DeckEntry.lexemes (e : DeckEntry) : List Lexeme :=
  writeIf e.isDefault (.word "default") ++ .key e.card :: e.description.toList.map .text

def Clause.lexemes : Clause → List Lexeme
  | set key value => .word "set" :: .key key :: .symbol "=" :: value.lexemes
  | induce recipe chance => [.word "induce", .key recipe, .percent chance]
  | xtrigger x => x.lexemes
  | unique group => .word "unique" :: group.toList.map .key
  | slot none s => s.lexemes
  | slot (some verb) s => .key verb :: .symbol "->" :: s.lexemes
  | entry e => e.lexemes
  | require r => .word "require" :: r.lexemes
  | quantity word element amount => .word word :: .key element :: .symbol ":" :: amount.lexemes
  | mutate m => .word "mutate" :: .key m.id :: .key m.aspect :: .symbol ":" :: m.operation.lexemes
  | reference word target => [.word word, .key target]
  | startingCard card amount => .word "card" :: elementLexemes (card, amount)
  | branch b => b.lexemes

-- The statements that a body of the kind may hold.
def Kind.admits : Kind → Clause → Bool
  | aspect, .set _ _ | aspect, .induce _ _ | aspect, .xtrigger _ => true
  | card, .set _ _ | card, .induce _ _ | card, .unique _ | card, .slot (some _) _
  | card, .xtrigger _ => true
  | deck, .entry _ => true
  | recipe, .set _ _ | recipe, .require _ | recipe, .quantity _ _ _ | recipe, .mutate _
  | recipe, .branch _ | recipe, .slot none _ => true
  | recipe, .reference word _ => word = "ending"
  | verb, .set _ _ => true
  | legacy, .set _ _ | legacy, .startingCard _ _ => true
  | legacy, .reference word _ => word ∈ ["verb", "ending", "status", "exclude"]
  | _, _ => false

-- An assignment of a text that may be absent.
def assignText (key : String) (t : Option Text) : List Clause :=
  t.toList.map fun t => .set key (.string t)

def assignOthers (others : Others) : List Clause :=
  others.map fun entry => .set entry.1 entry.2

def Aspect.clauses (r : Aspect) : List Clause :=
  assignText "icon" r.icon ++ (assignText "verbicon" r.verbicon ++ (assignOthers r.others ++
    (r.induces.toList.map (fun i => .induce i.recipe i.chance) ++ r.xtriggers.map .xtrigger)))

def Aspect.lexemes (r : Aspect) : List Lexeme :=
  writeIf r.hidden (.word "hidden") ++
    .word "aspect" :: .key r.id :: .text r.label :: .text r.description ::
      (r.decaysTo.toList.flatMap (fun target => [.symbol "->", .key target]) ++
        writeBlock (r.clauses.map (·.lexemes)))

def uniqueClauses (unique : Bool) (group : Option Key) : List Clause :=
  (if unique then [.unique none] else []) ++ group.toList.map fun group => .unique (some group)

def Card.clauses (r : Card) : List Clause :=
  assignText "icon" r.icon ++ (assignText "verbicon" r.verbicon ++
    (.set "resaturate" (.bool r.resaturate) :: (assignOthers r.others ++
      (r.induces.toList.map (fun i => .induce i.recipe i.chance) ++
        (uniqueClauses r.unique r.uniquenessGroup ++
          (r.slots.flatMap (fun entry => entry.2.map (.slot (some entry.1))) ++
            r.xtriggers.map .xtrigger))))))

-- What a card decays to and its lifetime, behind an arrow if there is either.
def decayLexemes : Option Key → Option Int → List Lexeme
  | none, none => []
  | target, lifetime =>
    .symbol "->" :: (target.toList.map Lexeme.key ++ lifetime.toList.map .number)

def Card.lexemes (r : Card) : List Lexeme :=
  writeIf r.hidden (.word "hidden") ++
    .word "card" :: .key r.id :: .text r.label :: .text r.description :: .symbol "(" ::
      (commaSeparated ")" (r.aspects.map elementLexemes) ++
        (decayLexemes r.decaysTo r.lifetime ++ writeBlock (r.clauses.map (·.lexemes))))

-- The entries of a deck. The first card with the default key is marked.
def deckEntries : Option Key → List (Key × Option Text) → List DeckEntry
  | _, [] => []
  | none, (card, description) :: cards => ⟨card, description, false⟩ :: deckEntries none cards
  | some default, (card, description) :: cards =>
    if card = default then ⟨card, description, true⟩ :: deckEntries none cards
    else ⟨card, description, false⟩ :: deckEntries (some default) cards

def Deck.lexemes (r : Deck) : List Lexeme :=
  .word "deck" :: .key r.id :: .text r.label :: .text r.description ::
    writeBlock ((deckEntries r.default r.cards).map (·.lexemes))

def Verb.lexemes (r : Verb) : List Lexeme :=
  .word "verb" :: .key r.id :: .text r.label :: .text r.description ::
    (r.slot.toList.flatMap (fun s => .symbol "(" :: (s.lexemes ++ [.symbol ")"])) ++
      writeBlock ((assignOthers r.others).map (·.lexemes)))

theorem Quantity.keyword_mem (q : Quantity) : q.keyword ∈ keywords := by
  cases q <;> decide

def quantityClauses (q : Quantity) (entries : List (Key × Amount)) : List Clause :=
  entries.map fun e => .quantity q.keyword e.1 e.2

def Recipe.clauses (r : Recipe) : List Clause :=
  .set "warmup" (.int r.warmup) :: .set "maxexecutions" (.int r.maxExecutions) ::
    .set "craftable" (.bool r.craftable) :: .set "hintonly" (.bool r.hintOnly) ::
    (assignText "burn" r.burn ++ (assignText "portal" r.portal ++
      (.set "style" (.string (WarmupStyle.enumeration.wordFor r.style)) ::
        (assignOthers r.others ++ (r.requirements.map .require ++
          (Quantity.all.flatMap (fun q => quantityClauses q (q.entries r)) ++
            (r.mutations.map .mutate ++ (r.ending.toList.map (.reference "ending") ++
              (r.slot.toList.map (.slot none) ++ r.branches.map .branch)))))))))

def Recipe.lexemes (r : Recipe) : List Lexeme :=
  .word "recipe" :: .key r.id :: .key r.verb :: .text r.label :: .text r.description ::
    .text r.endDescription :: writeBlock (r.clauses.map (·.lexemes))

def Legacy.clauses (r : Legacy) : List Clause :=
  .set "image" (.string r.image) :: .set "newstart" (.bool r.newStart) ::
    .set "availablewithoutendingmatch" (.bool r.availableWithoutEndingMatch) ::
    (assignOthers r.others ++ (r.startingVerb.toList.map (.reference "verb") ++
      (r.fromEnding.toList.map (.reference "ending") ++
        (r.statusBarElements.map (.reference "status") ++
          (r.excludeAfterLegacies.map (.reference "exclude") ++
            r.startingCards.map fun e => .startingCard e.1 e.2)))))

def Legacy.lexemes (r : Legacy) : List Lexeme :=
  .word "legacy" :: .key r.id :: .text r.label :: .text r.description ::
    .text r.startDescription :: writeBlock (r.clauses.map (·.lexemes))

-- The body of an ending.
def Ending.body (r : Ending) : List (Text × Literal) :=
  ("image", .string r.image) ::
    ("flavour", .string (EndingMusic.enumeration.wordFor r.music)) ::
    ("anim", .string (EndingAnimation.enumeration.wordFor r.animation)) ::
    ("achievementid", .string r.achievement) :: r.others.map fun e => (e.1.text, e.2)

def Ending.lexemes (r : Ending) : List Lexeme :=
  .word "ending" :: .key r.id :: .text r.label :: .text r.description ::
    (Literal.object r.body).lexemes

def Component.lexemes : Component → List Lexeme
  | aspect r => r.lexemes
  | card r => r.lexemes
  | deck r => r.lexemes
  | recipe r => r.lexemes
  | verb r => r.lexemes
  | legacy r => r.lexemes
  | ending r => r.lexemes

def ComponentDeclaration.lexemes (d : ComponentDeclaration) : List Lexeme :=
  d.attributes.flatMap (·.lexemes "#") ++
    (d.inherits.toList.flatMap (fun parent => [.word "from", .key parent]) ++ d.component.lexemes)

namespace Declaration

mutual

def lexemes : Declaration → List Lexeme
  | scope id attributes body _ =>
    attributes.flatMap (·.lexemes "#") ++ .word "namespace" :: .key id :: .symbol "\x7b" ::
      (bodyLexemes body ++ [.lineEnd, .symbol "\x7d"])
  | component d => d.lexemes

-- Each declaration in a line of its own.
def bodyLexemes : List Declaration → List Lexeme
  | [] => []
  | d :: ds => .lineEnd :: (d.lexemes ++ bodyLexemes ds)

end

theorem bodyLexemes_eq_flatMap (ds : List Declaration) :
    bodyLexemes ds = ds.flatMap (.lineEnd :: ·.lexemes) := by
  induction ds with
  | nil => rfl
  | cons d ds ih => rw [bodyLexemes, ih, List.flatMap_cons, List.cons_append]

end Declaration

def FileTree.lexemes (t : FileTree) : List Lexeme :=
  t.attributes.flatMap (.lineEnd :: ·.lexemes "#!") ++
    (Declaration.bodyLexemes t.declarations ++ [.lineEnd])

-- The canonical text of a file, with words in lower case.
def FileTree.print (t : FileTree) : List Char :=
  render t.lexemes

end CardLore
