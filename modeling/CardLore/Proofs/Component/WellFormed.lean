import CardLore.Component.Inherit
import CardLore.Proofs.Writing.Valid

namespace CardLore

-- The integers of the literal are not too long, and no object has two members of one name.
inductive Literal.WellFormed : Literal → Prop
  | null : WellFormed .null
  | bool (b : Bool) : WellFormed (.bool b)
  | int {n : Int} (h : IsInteger n) : WellFormed (.int n)
  | float (x : Float) : WellFormed (.float x)
  | string (t : Text) : WellFormed (.string t)
  | array {items : List Literal} (h : ∀ item ∈ items, WellFormed item) : WellFormed (.array items)
  | object {members : List (Text × Literal)} (hnames : (members.map (·.1)).Nodup)
      (h : ∀ m ∈ members, WellFormed m.2) : WellFormed (.object members)

-- Nothing but assignments holds literals, so the depth does not matter for other clauses.
def Clause.WellFormed : Clause → Prop
  | set key value => key.Valid ∧ value.WellFormed
  | c => c.Valid 0

-- Assignments to distinct keys that are neither of the signature nor known to the kind.
structure WellFormedOthers {R : Type} (fields : Fields R) (others : Others) : Prop where
  nodup : (others.map (·.1)).Nodup
  key : ∀ e ∈ others, e.1.Valid
  unsigned : ∀ e ∈ others, e.1 ∉ signatureKeys
  unknown : ∀ e ∈ others, ∀ known ∈ fields.known, Text.ofString known.1 ≠ e.1.text
  value : ∀ e ∈ others, e.2.WellFormed

-- Without other assignments a record is valid for every depth.
structure Aspect.WellFormed (r : Aspect) : Prop where
  known : Aspect.Valid 0 { r with others := [] }
  others : WellFormedOthers fields r.others

structure Card.WellFormed (r : Card) : Prop where
  known : Card.Valid 0 { r with others := [] }
  others : WellFormedOthers fields r.others

structure Deck.WellFormed (r : Deck) : Prop where
  id : r.id.Valid
  card : ∀ e ∈ r.cards, e.1.Valid
  default : ∀ card ∈ r.default, card.Valid

structure Verb.WellFormed (r : Verb) : Prop where
  known : Verb.Valid 0 { r with others := [] }
  others : WellFormedOthers fields r.others

structure Recipe.WellFormed (r : Recipe) : Prop where
  known : Recipe.Valid 0 { r with others := [] }
  others : WellFormedOthers fields r.others

structure Legacy.WellFormed (r : Legacy) : Prop where
  known : Legacy.Valid 0 { r with others := [] }
  others : WellFormedOthers fields r.others

structure Ending.WellFormed (r : Ending) : Prop where
  id : r.id.Valid
  nodup : (r.others.map fun e => Text.lower e.1.text).Nodup
  unknown : ∀ e ∈ r.others, Text.lower e.1.text ∉ knownNames
  value : ∀ e ∈ r.others, e.2.WellFormed

namespace Component

def WellFormed : Component → Prop
  | aspect r => r.WellFormed
  | card r => r.WellFormed
  | deck r => r.WellFormed
  | recipe r => r.WellFormed
  | verb r => r.WellFormed
  | legacy r => r.WellFormed
  | ending r => r.WellFormed

-- What is true of a component before it inherits: a deck agrees with its own cards.
def WellBuilt : Component → Prop
  | deck r => r.Valid
  | c => c.WellFormed

end Component

theorem ValidOthers.nil {R : Type} {limit : Nat} (fields : Fields R) :
    ValidOthers limit fields [] :=
  ⟨List.nodup_nil, nofun, nofun, nofun, nofun⟩

theorem WellFormedOthers.nil {R : Type} (fields : Fields R) : WellFormedOthers fields [] :=
  ⟨List.nodup_nil, nofun, nofun, nofun, nofun⟩

theorem Deck.Valid.wellFormed {r : Deck} (h : r.Valid) : r.WellFormed where
  id := h.id
  card := h.card
  default := by
    intro card hcard
    obtain ⟨e, he, rfl⟩ := List.mem_map.mp (h.default card hcard)
    exact h.card e he

theorem Component.WellBuilt.wellFormed {c : Component} (h : c.WellBuilt) : c.WellFormed := by
  cases c with
  | deck r => exact Deck.Valid.wellFormed h
  | _ => exact h

theorem Component.WellBuilt.withId {c : Component} (h : c.WellBuilt) {key : Key} (hkey : key.Valid) :
    (c.withId key).WellBuilt := by
  cases c with
  | aspect r => exact ⟨{ h.known with id := hkey }, h.others⟩
  | card r => exact ⟨{ h.known with id := hkey }, h.others⟩
  | deck r => exact { h with id := hkey }
  | recipe r =>
      have hquantities := h.known.quantities
      exact ⟨{ h.known with
        id := hkey
        quantities := fun q hq => by cases q <;> exact hquantities _ hq }, h.others⟩
  | verb r => exact ⟨{ h.known with id := hkey }, h.others⟩
  | legacy r => exact ⟨{ h.known with id := hkey }, h.others⟩
  | ending r => exact { h with id := hkey }

section

variable {α : Type}

theorem inheritEntries_induction (P : List α → Prop) {own parent : List α} (hown : P own)
    (hparent : P parent) : P (inheritEntries own parent) := by
  rw [inheritEntries]
  split
  · exact hparent
  · exact hown

theorem forall_mem_inheritEntries {P : α → Prop} {own parent : List α} (hown : ∀ x ∈ own, P x)
    (hparent : ∀ x ∈ parent, P x) : ∀ x ∈ inheritEntries own parent, P x :=
  inheritEntries_induction (fun xs => ∀ x ∈ xs, P x) hown hparent

theorem forall_mem_some {P : α → Prop} {v : α} (h : P v) : ∀ x ∈ some v, P x := by
  rintro _ ⟨⟩
  exact h

theorem forall_mem_or {P : α → Prop} {own parent : Option α} (hown : ∀ x ∈ own, P x)
    (hparent : ∀ x ∈ parent, P x) : ∀ x ∈ own.or parent, P x := by
  cases own with
  | none => exact hparent
  | some v => exact hown

theorem inheritKey_induction {P : Key → Prop} {own parent : Key} (hown : P own)
    (hparent : P parent) : P (inheritKey own parent) := by
  rw [inheritKey]
  split
  · exact hparent
  · exact hown

theorem inheritValue_induction [DecidableEq α] {P : α → Prop} {default own parent : α}
    (hown : P own) (hparent : P parent) : P (inheritValue default own parent) := by
  rw [inheritValue]
  split
  · exact hparent
  · exact hown

end

theorem WellFormedOthers.inherit {R : Type} {fields : Fields R} {own parent : Others}
    (hown : WellFormedOthers fields own) (hparent : WellFormedOthers fields parent) :
    WellFormedOthers fields (inheritEntries own parent) :=
  inheritEntries_induction (WellFormedOthers fields) hown hparent

theorem Aspect.WellFormed.inherit {c p : Aspect} (hc : c.WellFormed) (hp : p.WellFormed) :
    (c.inherit p).WellFormed where
  known :=
    { id := hc.known.id
      induces := forall_mem_or hc.known.induces hp.known.induces
      decaysTo := forall_mem_or hc.known.decaysTo hp.known.decaysTo
      xtriggers := forall_mem_inheritEntries hc.known.xtriggers hp.known.xtriggers
      others := .nil fields }
  others := hc.others.inherit hp.others

-- Being unique and having a group are taken from the parent together.
theorem Card.WellFormed.inherit {c p : Card} (hc : c.WellFormed) (hp : p.WellFormed) :
    (c.inherit p).WellFormed where
  known :=
    { id := hc.known.id
      induces := forall_mem_or hc.known.induces hp.known.induces
      decaysTo := forall_mem_or hc.known.decaysTo hp.known.decaysTo
      aspects := inheritEntries_induction ValidCounts hc.known.aspects hp.known.aspects
      lifetime := forall_mem_or hc.known.lifetime hp.known.lifetime
      notBoth := by
        change (if c.isOpen then p.unique else c.unique) = true →
          (if c.isOpen then p.uniquenessGroup else c.uniquenessGroup) = none
        split
        · exact hp.known.notBoth
        · exact hc.known.notBoth
      group := by
        change ∀ group ∈ (if c.isOpen then p.uniquenessGroup else c.uniquenessGroup), group.Valid
        split
        · exact hp.known.group
        · exact hc.known.group
      slotVerbs := inheritEntries_induction (fun slots : List (Key × List Slot) =>
        (slots.map (·.1)).Nodup) hc.known.slotVerbs hp.known.slotVerbs
      slotVerb := forall_mem_inheritEntries hc.known.slotVerb hp.known.slotVerb
      slotLists := forall_mem_inheritEntries hc.known.slotLists hp.known.slotLists
      slots := forall_mem_inheritEntries hc.known.slots hp.known.slots
      xtriggers := forall_mem_inheritEntries hc.known.xtriggers hp.known.xtriggers
      others := .nil fields }
  others := hc.others.inherit hp.others

theorem Deck.WellFormed.inherit {c p : Deck} (hc : c.WellFormed) (hp : p.WellFormed) :
    (c.inherit p).WellFormed where
  id := hc.id
  card := forall_mem_inheritEntries hc.card hp.card
  default := forall_mem_or hc.default hp.default

theorem Verb.WellFormed.inherit {c p : Verb} (hc : c.WellFormed) (hp : p.WellFormed) :
    (c.inherit p).WellFormed where
  known :=
    { id := hc.known.id
      slot := forall_mem_or hc.known.slot hp.known.slot
      others := .nil fields }
  others := hc.others.inherit hp.others

theorem Quantity.entries_inherit (q : Quantity) (c p : Recipe) :
    q.entries (c.inherit p) = inheritEntries (q.entries c) (q.entries p) := by
  cases q <;> rfl

theorem Quantity.entries_others (q : Quantity) (r : Recipe) (others : Others) :
    q.entries { r with others } = q.entries r := by
  cases q <;> rfl

theorem Recipe.WellFormed.inherit {c p : Recipe} (hc : c.WellFormed) (hp : p.WellFormed) :
    (c.inherit p).WellFormed where
  known :=
    { id := hc.known.id
      verb := inheritKey_induction hc.known.verb hp.known.verb
      warmup := inheritValue_induction hc.known.warmup hp.known.warmup
      maxExecutions := inheritValue_induction hc.known.maxExecutions hp.known.maxExecutions
      requirements := forall_mem_inheritEntries hc.known.requirements hp.known.requirements
      quantities := by
        intro q hq
        have hown := hc.known.quantities q hq
        have hparent := hp.known.quantities q hq
        rw [Quantity.entries_others] at hown hparent ⊢
        rw [Quantity.entries_inherit]
        exact inheritEntries_induction (ValidQuantity q) hown hparent
      mutations := forall_mem_inheritEntries hc.known.mutations hp.known.mutations
      ending := forall_mem_or hc.known.ending hp.known.ending
      slot := forall_mem_or hc.known.slot hp.known.slot
      branches := forall_mem_inheritEntries hc.known.branches hp.known.branches
      others := .nil fields }
  others := hc.others.inherit hp.others

theorem Legacy.WellFormed.inherit {c p : Legacy} (hc : c.WellFormed) (hp : p.WellFormed) :
    (c.inherit p).WellFormed where
  known :=
    { id := hc.known.id
      startingVerb := forall_mem_or hc.known.startingVerb hp.known.startingVerb
      fromEnding := forall_mem_or hc.known.fromEnding hp.known.fromEnding
      status := forall_mem_inheritEntries hc.known.status hp.known.status
      statusNodup := inheritEntries_induction List.Nodup hc.known.statusNodup hp.known.statusNodup
      statusLength := inheritEntries_induction (fun elements => elements.length ≤ maxStatusElements)
        hc.known.statusLength hp.known.statusLength
      excluded := forall_mem_inheritEntries hc.known.excluded hp.known.excluded
      excludedNodup :=
        inheritEntries_induction List.Nodup hc.known.excludedNodup hp.known.excludedNodup
      startingCards :=
        inheritEntries_induction ValidCounts hc.known.startingCards hp.known.startingCards
      others := .nil fields }
  others := hc.others.inherit hp.others

theorem Ending.WellFormed.inherit {c p : Ending} (hc : c.WellFormed) (hp : p.WellFormed) :
    (c.inherit p).WellFormed where
  id := hc.id
  nodup := inheritEntries_induction
    (fun others : Others => (others.map fun e => Text.lower e.1.text).Nodup) hc.nodup hp.nodup
  unknown := forall_mem_inheritEntries hc.unknown hp.unknown
  value := forall_mem_inheritEntries hc.value hp.value

theorem Component.WellFormed.inherit {c p : Component} (hc : c.WellFormed) (hp : p.WellFormed) :
    (c.inherit p).WellFormed := by
  -- Only components of one kind have anything to give.
  cases c <;> cases p <;> first | exact hc | skip
  · exact Aspect.WellFormed.inherit hc hp
  · exact Card.WellFormed.inherit hc hp
  · exact Deck.WellFormed.inherit hc hp
  · exact Recipe.WellFormed.inherit hc hp
  · exact Verb.WellFormed.inherit hc hp
  · exact Legacy.WellFormed.inherit hc hp
  · exact Ending.WellFormed.inherit hc hp

end CardLore
