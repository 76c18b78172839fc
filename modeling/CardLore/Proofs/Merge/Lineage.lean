import CardLore.Proofs.Component.Fields
import CardLore.Proofs.Merge.Parent

namespace CardLore

-- A record whose fields come from a chain of records of its kind.
def Filled {R : Type} (wrap : R → Component) (fields : List (Field R)) (chain : List Component)
    (r : R) : Prop :=
  ∃ rs : List R, chain = rs.map wrap ∧ ∀ f ∈ fields, FirstSet f.default (rs.map f.get) (f.get r)

theorem Filled.self {R : Type} (wrap : R → Component) (fields : List (Field R)) (r : R) :
    Filled wrap fields [wrap r] r :=
  ⟨[r], rfl, fun f _ => FirstSet.singleton f.default (f.get r)⟩

theorem Filled.inherit {R : Type} {wrap : R → Component} {fields : List (Field R)}
    {chain : List Component} {inherit : R → R → R} (hf : ∀ f ∈ fields, f.Inherited inherit)
    (child : R) {parent : R} (h : Filled wrap fields chain parent) :
    Filled wrap fields (wrap child :: chain) (inherit child parent) := by
  obtain ⟨rs, rfl, hrs⟩ := h
  refine ⟨child :: rs, rfl, fun f hmem => ?_⟩
  by_cases hdefault : f.get child = f.default
  · rw [(hf f hmem).unset child parent hdefault]
    exact .later hdefault (hrs f hmem)
  · rw [(hf f hmem).set child parent hdefault]
    exact .here hdefault

theorem Filled.get_eq {R : Type} {wrap : R → Component} (hwrap : wrap.Injective)
    {fields : List (Field R)} {chain : List Component} {r s : R}
    (hr : Filled wrap fields chain r) (hs : Filled wrap fields chain s) :
    ∀ f ∈ fields, f.get r = f.get s := by
  obtain ⟨rs, rfl, hrs⟩ := hr
  obtain ⟨ss, heq, hss⟩ := hs
  obtain rfl := (List.map_injective_iff.mpr hwrap) heq
  exact fun f hmem => (hrs f hmem).unique (hss f hmem)

namespace Component

-- Every field but the identity comes from the chain.
def FilledFrom (chain : List Component) : Component → Prop
  | aspect r => Filled aspect Aspect.inheritedFields chain r
  | card r => Filled card Card.inheritedFields chain r
  | deck r => Filled deck Deck.inheritedFields chain r
  | recipe r => Filled recipe Recipe.inheritedFields chain r
  | verb r => Filled verb Verb.inheritedFields chain r
  | legacy r => Filled legacy Legacy.inheritedFields chain r
  | ending r => Filled ending Ending.inheritedFields chain r

theorem inherit_kind (child parent : Component) : (child.inherit parent).kind = child.kind := by
  cases child <;> cases parent <;> rfl

theorem inherit_id (child parent : Component) : (child.inherit parent).id = child.id := by
  cases child <;> cases parent <;> rfl

theorem withId_id (key : Key) (c : Component) : (c.withId key).id = key := by
  cases c <;> rfl

theorem filledFrom_self (c : Component) : FilledFrom [c] c := by
  cases c <;> exact Filled.self _ _ _

theorem FilledFrom.inherit {chain : List Component} (child : Component) {parent : Component}
    (hkind : parent.kind = child.kind) (h : FilledFrom chain parent) :
    FilledFrom (child :: chain) (child.inherit parent) := by
  cases child <;> cases parent <;> cases hkind
  · exact Filled.inherit Aspect.inherited_fields _ h
  · exact Filled.inherit Card.inherited_fields _ h
  · exact Filled.inherit Deck.inherited_fields _ h
  · exact Filled.inherit Recipe.inherited_fields _ h
  · exact Filled.inherit Verb.inherited_fields _ h
  · exact Filled.inherit Legacy.inherited_fields _ h
  · exact Filled.inherit Ending.inherited_fields _ h

-- Kind, identity and chain determine a component: no field is left out.
theorem FilledFrom.unique {chain : List Component} {c e : Component} (hkind : c.kind = e.kind)
    (hid : c.id = e.id) (hc : FilledFrom chain c) (he : FilledFrom chain e) : c = e := by
  cases c <;> cases e <;> cases hkind
  · exact congrArg _ (Aspect.eq_of_fields hid (Filled.get_eq (fun _ _ => aspect.inj) hc he))
  · exact congrArg _ (Card.eq_of_fields hid (Filled.get_eq (fun _ _ => card.inj) hc he))
  · exact congrArg _ (Deck.eq_of_fields hid (Filled.get_eq (fun _ _ => deck.inj) hc he))
  · exact congrArg _ (Recipe.eq_of_fields hid (Filled.get_eq (fun _ _ => recipe.inj) hc he))
  · exact congrArg _ (Verb.eq_of_fields hid (Filled.get_eq (fun _ _ => verb.inj) hc he))
  · exact congrArg _ (Legacy.eq_of_fields hid (Filled.get_eq (fun _ _ => legacy.inj) hc he))
  · exact congrArg _ (Ending.eq_of_fields hid (Filled.get_eq (fun _ _ => ending.inj) hc he))

end Component

-- The definition, its parent, the parent of that one, up to one without parent.
inductive Lineage (ds : List Definition) : Definition → List Definition → Prop
  | root {d : Definition} (h : d.inherits = none) : Lineage ds d [d]
  | child {d p : Definition} {chain : List Definition} (h : Parent ds d p)
      (hp : Lineage ds p chain) : Lineage ds d (d :: chain)

-- The component of a definition with all that it inherits.
inductive Resolves (ds : List Definition) : Definition → Component → Prop
  | root {d : Definition} (h : d.inherits = none) : Resolves ds d d.component
  | child {d p : Definition} {c : Component} (h : Parent ds d p) (hp : Resolves ds p c) :
      Resolves ds d (d.component.inherit c)

theorem Resolves.kind_eq {ds : List Definition} {d : Definition} {c : Component}
    (h : Resolves ds d c) : c.kind = d.kind := by
  cases h with
  | root => rfl
  | child => exact Component.inherit_kind _ _

theorem Resolves.id_eq {ds : List Definition} {d : Definition} {c : Component}
    (h : Resolves ds d c) : c.id = d.component.id := by
  cases h with
  | root => rfl
  | child => exact Component.inherit_id _ _

theorem Resolves.unique {ds : List Definition} (hn : (ds.map Definition.identity).Nodup)
    {d : Definition} {c e : Component} (hc : Resolves ds d c) (he : Resolves ds d e) : c = e := by
  induction hc generalizing e with
  | root hroot =>
      cases he with
      | root => rfl
      | child h _ =>
          obtain ⟨name, hname, _⟩ := h
          rw [hroot] at hname
          cases hname
  | child h _ ih =>
      cases he with
      | root hroot =>
          obtain ⟨name, hname, _⟩ := h
          rw [hroot] at hname
          cases hname
      | child h' he =>
          rw [Parent.unique hn h' h] at he
          rw [ih he]

theorem Resolves.exists_lineage {ds : List Definition} {d : Definition} {c : Component}
    (h : Resolves ds d c) :
    ∃ chain, Lineage ds d chain ∧ c.FilledFrom (chain.map (·.component)) := by
  induction h with
  | root hroot => exact ⟨_, .root hroot, Component.filledFrom_self _⟩
  | @child d p c hparent hp ih =>
      obtain ⟨chain, hchain, hfilled⟩ := ih
      refine ⟨d :: chain, .child hparent hchain, hfilled.inherit d.component ?_⟩
      exact hp.kind_eq.trans hparent.kind_eq

theorem resolves_congr {ds es : List Definition} (h : ∀ d, d ∈ ds ↔ d ∈ es) {d : Definition}
    {c : Component} (hc : Resolves ds d c) : Resolves es d c := by
  induction hc with
  | root hroot => exact .root hroot
  | child hparent _ ih => exact .child (parent_congr h ▸ hparent) ih

end CardLore
