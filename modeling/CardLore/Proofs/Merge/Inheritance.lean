import CardLore.Proofs.Merge.Lineage

namespace CardLore

namespace Field.Inherited

variable {R : Type} {f : Field R} {inherit : R → R → R}

theorem get_assoc (h : f.Inherited inherit) (c p g : R) :
    f.get (inherit (inherit c p) g) = f.get (inherit c (inherit p g)) := by
  by_cases hc : f.get c = f.default
  · have hcp := h.unset c p hc
    rw [h.unset c (inherit p g) hc]
    by_cases hp : f.get p = f.default
    · rw [h.unset p g hp, h.unset (inherit c p) g (hcp.trans hp)]
    · rw [h.set p g hp, h.set (inherit c p) g (hcp ▸ hp), hcp]
  · have hcp := h.set c p hc
    rw [h.set c (inherit p g) hc, h.set (inherit c p) g (hcp ▸ hc), hcp]

-- A field that is still at its default after inheriting is so because the parent's is.
theorem get_idem (h : f.Inherited inherit) (c p : R) :
    f.get (inherit (inherit c p) p) = f.get (inherit c p) := by
  by_cases hcp : f.get (inherit c p) = f.default
  · by_cases hc : f.get c = f.default
    · rw [h.unset (inherit c p) p hcp, h.unset c p hc]
    · exact absurd ((h.set c p hc).symm.trans hcp) hc
  · exact h.set (inherit c p) p hcp

end Field.Inherited

-- Inheritance between records that consist of an identity, which stays, and of inherited fields.
structure Fieldwise {R : Type} (id : R → Key) (fields : List (Field R)) (inherit : R → R → R) :
    Prop where
  id_eq : ∀ c p, id (inherit c p) = id c
  inherited : ∀ f ∈ fields, f.Inherited inherit
  ext : ∀ {r s : R}, id r = id s → (∀ f ∈ fields, f.get r = f.get s) → r = s

-- Every field that the first record has set is the same in the second.
def KeepsFields {R : Type} (fields : List (Field R)) (r s : R) : Prop :=
  ∀ f ∈ fields, f.get r ≠ f.default → f.get s = f.get r

namespace Fieldwise

variable {R : Type} {id : R → Key} {fields : List (Field R)} {inherit : R → R → R}

theorem assoc (h : Fieldwise id fields inherit) (c p g : R) :
    inherit (inherit c p) g = inherit c (inherit p g) := by
  apply h.ext
  · rw [h.id_eq, h.id_eq, h.id_eq]
  · exact fun f hf => (h.inherited f hf).get_assoc c p g

theorem idem (h : Fieldwise id fields inherit) (c p : R) :
    inherit (inherit c p) p = inherit c p := by
  apply h.ext
  · exact h.id_eq (inherit c p) p
  · exact fun f hf => (h.inherited f hf).get_idem c p

theorem keepsFields (h : Fieldwise id fields inherit) (c p : R) :
    KeepsFields fields c (inherit c p) :=
  fun f hf => (h.inherited f hf).set c p

end Fieldwise

theorem Aspect.fieldwise : Fieldwise Aspect.id inheritedFields inherit :=
  ⟨fun _ _ => rfl, inherited_fields, eq_of_fields⟩

theorem Card.fieldwise : Fieldwise Card.id inheritedFields inherit :=
  ⟨fun _ _ => rfl, inherited_fields, eq_of_fields⟩

theorem Deck.fieldwise : Fieldwise Deck.id inheritedFields inherit :=
  ⟨fun _ _ => rfl, inherited_fields, eq_of_fields⟩

theorem Recipe.fieldwise : Fieldwise Recipe.id inheritedFields inherit :=
  ⟨fun _ _ => rfl, inherited_fields, eq_of_fields⟩

theorem Verb.fieldwise : Fieldwise Verb.id inheritedFields inherit :=
  ⟨fun _ _ => rfl, inherited_fields, eq_of_fields⟩

theorem Legacy.fieldwise : Fieldwise Legacy.id inheritedFields inherit :=
  ⟨fun _ _ => rfl, inherited_fields, eq_of_fields⟩

theorem Ending.fieldwise : Fieldwise Ending.id inheritedFields inherit :=
  ⟨fun _ _ => rfl, inherited_fields, eq_of_fields⟩

namespace Component

-- Both are of one kind, and every field that the first has set is the same in the second. For a
-- card the two ways of being unique count as one field.
def KeepsFieldsOf : Component → Component → Prop
  | aspect r, aspect s => KeepsFields Aspect.inheritedFields r s
  | card r, card s => KeepsFields Card.inheritedFields r s
  | deck r, deck s => KeepsFields Deck.inheritedFields r s
  | recipe r, recipe s => KeepsFields Recipe.inheritedFields r s
  | verb r, verb s => KeepsFields Verb.inheritedFields r s
  | legacy r, legacy s => KeepsFields Legacy.inheritedFields r s
  | ending r, ending s => KeepsFields Ending.inheritedFields r s
  | _, _ => False

-- A card that is both unique and in a uniqueness group.
def IsOverdetermined : Component → Prop
  | card r => r.unique = true ∧ r.uniquenessGroup ≠ none
  | _ => False

section

variable {c p g : Component} (hp : p.kind = c.kind)

include hp

theorem inherit_assoc (hg : g.kind = c.kind) :
    (c.inherit p).inherit g = c.inherit (p.inherit g) := by
  cases c <;> cases p <;> cases hp <;> cases g <;> cases hg
  · exact congrArg aspect (Aspect.fieldwise.assoc _ _ _)
  · exact congrArg card (Card.fieldwise.assoc _ _ _)
  · exact congrArg deck (Deck.fieldwise.assoc _ _ _)
  · exact congrArg recipe (Recipe.fieldwise.assoc _ _ _)
  · exact congrArg verb (Verb.fieldwise.assoc _ _ _)
  · exact congrArg legacy (Legacy.fieldwise.assoc _ _ _)
  · exact congrArg ending (Ending.fieldwise.assoc _ _ _)

theorem inherit_idem : (c.inherit p).inherit p = c.inherit p := by
  cases c <;> cases p <;> cases hp
  · exact congrArg aspect (Aspect.fieldwise.idem _ _)
  · exact congrArg card (Card.fieldwise.idem _ _)
  · exact congrArg deck (Deck.fieldwise.idem _ _)
  · exact congrArg recipe (Recipe.fieldwise.idem _ _)
  · exact congrArg verb (Verb.fieldwise.idem _ _)
  · exact congrArg legacy (Legacy.fieldwise.idem _ _)
  · exact congrArg ending (Ending.fieldwise.idem _ _)

theorem keepsFieldsOf_inherit : c.KeepsFieldsOf (c.inherit p) := by
  cases c <;> cases p <;> cases hp
  · exact Aspect.fieldwise.keepsFields _ _
  · exact Card.fieldwise.keepsFields _ _
  · exact Deck.fieldwise.keepsFields _ _
  · exact Recipe.fieldwise.keepsFields _ _
  · exact Verb.fieldwise.keepsFields _ _
  · exact Legacy.fieldwise.keepsFields _ _
  · exact Ending.fieldwise.keepsFields _ _

end

-- The pair is the child's or the parent's, never made up from both.
theorem not_isOverdetermined_inherit {c p : Component} (hc : ¬ c.IsOverdetermined)
    (hp : ¬ p.IsOverdetermined) : ¬ (c.inherit p).IsOverdetermined := by
  cases c with
  | card c =>
      cases p with
      | card p =>
          change ¬ ((if c.isOpen then p.unique else c.unique) = true ∧
            (if c.isOpen then p.uniquenessGroup else c.uniquenessGroup) ≠ none)
          split
          · exact hp
          · exact hc
      | _ => exact hc
  | _ => cases p <;> exact hc

end Component

-- Between components of one kind, whatever their fields, inheritance is associative and idempotent;
-- it changes neither the identity nor a field that the child has set, and it does not make a card
-- unique in two ways.
theorem inherit_associative_idempotent {c p g : Component} (hp : p.kind = c.kind)
    (hg : g.kind = c.kind) :
    (c.inherit p).inherit g = c.inherit (p.inherit g) ∧
    (c.inherit p).inherit p = c.inherit p ∧
    (c.inherit p).id = c.id ∧
    c.KeepsFieldsOf (c.inherit p) ∧
    (¬ c.IsOverdetermined → ¬ p.IsOverdetermined → ¬ (c.inherit p).IsOverdetermined) :=
  ⟨c.inherit_assoc hp hg, c.inherit_idem hp, c.inherit_id p, c.keepsFieldsOf_inherit hp,
    Component.not_isOverdetermined_inherit⟩

-- A card that is open, a parent that is unique, and the parent's parent, which is in a group.
def openCard : Card := { id := "c", label := "C" }

def uniqueCard : Card := { id := "p", label := "P", unique := true }

def groupedCard : Card :=
  { id := "g", label := "G", uniquenessGroup := some "tools", lifetime := some 9 }

theorem inherit_associative_idempotent_cards :
    (Component.card uniqueCard).kind = (Component.card openCard).kind ∧
    (Component.card groupedCard).kind = (Component.card openCard).kind ∧
    ((Component.card openCard).inherit (.card uniqueCard)).inherit (.card groupedCard) =
      .card { id := "c", label := "C", unique := true, lifetime := some 9 } ∧
    ¬ ((Component.card openCard).inherit (.card uniqueCard)).IsOverdetermined := by
  have h := inherit_associative_idempotent (c := .card openCard) (p := .card uniqueCard)
    (g := .card groupedCard) rfl rfl
  refine ⟨rfl, rfl, h.1, h.2.2.2.2 ?_ ?_⟩
  · rintro ⟨⟨⟩, _⟩
  · rintro ⟨_, hgroup⟩
    exact hgroup rfl

end CardLore
