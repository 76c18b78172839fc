import CardLore.Declaration.Component
import CardLore.Proofs.Conduct.Statement

namespace CardLore

-- Only aspects and cards may be marked as hidden.
def Component.isHidden : Component → Bool
  | .aspect r => r.hidden
  | .card r => r.hidden
  | _ => false

-- A component starts with the mark that hides it, if it has one, or else with the word for its
-- kind.
def Component.firstWord (c : Component) : String :=
  if c.isHidden then "hidden" else c.kind.name

-- Nothing that is said in a body hides a component, or shows one that is hidden.
theorem Aspect.build_hidden {signature r : Aspect} {ss : List Statement}
    (hsignature : signature = described signature []) (h : build signature ss = .ok r) :
    r.hidden = signature.hidden := by
  obtain ⟨-, rfl⟩ := (build_settles signature hsignature ss).clean_of_ok h
  rfl

theorem Card.build_hidden {signature r : Card} {aspects : List (Located (Key × Int))}
    {ss : List Statement} (hsignature : signature = described signature [] [])
    (h : build signature aspects ss = .ok r) : r.hidden = signature.hidden := by
  rcases build_settles signature hsignature aspects ss with
    ⟨-, refusal, hrefusal, -⟩ | ⟨-, hsettles⟩
  · cases hrefusal.symm.trans h
  · obtain ⟨-, rfl⟩ := hsettles.clean_of_ok h
    rfl

-- A component as it is read where the given word stands first.
structure Component.ReadBehind (word : String) (c : Component) : Prop where
  wellBuilt : c.WellBuilt
  firstWord : c.firstWord = word

theorem getD_of_rel {α : Type} {R : α → α → Prop} {o o' : Option α} (h : Option.Rel R o o')
    {d : α} (hd : R d d) : R (o.getD d) (o'.getD d) := by
  cases h with
  | none => exact hd
  | some h => exact h

namespace Tandem

section

variable {α β : Type} {w : Settings} {depth : Nat} {e k : Reach} {a b d : List Char}
  {p p' q q' : Parser α} {f g : α → Parser β} {P : α → Prop} {Q : β → Prop} {R : α → α → Prop}
  {S : β → β → Prop}

-- What follows two branches follows each of them.
theorem either [Std.Refl R] {φ : Prop} [Decidable φ] (hp : Tandem .any w depth e a b p q P R)
    (hp' : Tandem .any w depth e a b p' q' P R)
    (hf : ∀ v x, P v → R v x → Tandem .any w depth k b d (f v) (g x) Q S) :
    Tandem .any w depth (e.andThen k) a d (if φ then p >>= f else p' >>= f)
      (if φ then q >>= g else q' >>= g) Q S :=
  ite (fun _ => hp.bind hf) fun _ => hp'.bind hf

end

variable {w : Settings} {depth : Nat} {a : List Char}

-- What may be marked as hidden starts with that mark or with the word behind it.
theorem hidden_bind {word : String} {f : Bool → Parser Component}
    (h : ∀ hidden, Behaves w depth (.opens (Spells word)) a a (f hidden)
      (Component.ReadBehind (if hidden then "hidden" else word))) :
    Behaves w depth (.opens fun token => Spells "hidden" token ∨ Spells word token) a a
      (Parser.tryKeyword "hidden" >>= f) Component.WellBuilt :=
  ((keyword_opens (by decide)).reach (.opens fun _ => Or.inl)).found_bind
    ((h true).closed.held.imp fun _ hc => hc.wellBuilt)
    (((h false).reach (.opens fun _ => Or.inr)).imp fun _ hc => hc.wellBuilt)

theorem aspect_eq : ∃ f : Bool → Parser Component,
    Parser.aspect = (Parser.tryKeyword "hidden" >>= f) ∧
      ∀ (w : Settings) (a : List Char) (hidden : Bool),
        Behaves w w.left.limit (.opens (Spells "aspect")) a a (f hidden)
          (Component.ReadBehind (if hidden then "hidden" else "aspect")) := by
  refine ⟨_, rfl, fun w a hidden => (keyword_opens (by decide)).opens_next fun _ _ => ?_⟩
  refine key.next fun id hid => string.next fun label _ => string.next fun description _ => ?_
  refine (after? (by decide) key).ofOptionRel.next fun decaysTo hdecays => ?_
  refine keep_bind (block setClause.located (List.forall_iff_forall_mem.mp
    ⟨induceClause.located, xtriggerClause.located⟩)) fun ss ss' hss hsame => ?_
  refine (construct (Aspect.build_refusesIn _ rfl fun s hs => (hss s hs).2)
    (Aspect.build_agrees hsame _) fun r hr => ?_).keep fun r hr => value hr
  refine ⟨Aspect.build_wellFormed ?_ rfl (fun s hs => (hss s hs).1) hr, ?_⟩
  · exact ⟨⟨hid, nofun, hdecays, nofun, .nil _⟩, .nil _⟩
  · rw [Component.firstWord, Component.isHidden, Aspect.build_hidden rfl hr]
    rfl

theorem aspect :
    Behaves w w.left.limit (.opens fun token => Spells "hidden" token ∨ Spells "aspect" token) a a
      Parser.aspect Component.WellBuilt := by
  obtain ⟨f, heq, hf⟩ := aspect_eq
  rw [heq]
  exact hidden_bind (hf w a)

-- What is read as a decay target could not be read as a lifetime.
theorem cardDecay : Behaves w depth .closed a a Parser.cardDecay fun decay =>
    (∀ target ∈ decay.1, target.Valid ∧ ¬ target.IsNumber) ∧ ∀ n ∈ decay.2, IsCount n := by
  refine unsigned.attempt_bindKnown (k := .held)
    (T := fun decay => (∀ target ∈ decay.1, target.Valid) ∧ ∀ n ∈ decay.2, IsCount n) (.any _ _)
    (.refl _) ?_ ?_ ?_
  · rintro n _ hn rfl
    exact value ⟨nofun, forall_mem_some hn⟩
  · refine key.attempt_bind (fun target htarget => ?_) (fail _)
    refine unsigned.attempt.keep fun lifetime hlifetime => value ⟨forall_mem_some htarget, ?_⟩
    intro n hn
    obtain ⟨m, hm, rfl⟩ := Option.map_eq_some_iff.mp hn
    exact hlifetime m hm
  · rintro ctx s _ _ furthest decay t hunsigned hok ⟨hvalid, hcount⟩
    refine ⟨fun target htarget => ⟨hvalid target htarget, ?_⟩, hcount⟩
    obtain ⟨o, mid, ho, hok⟩ := bind_eq_ok_iff.mp hok
    rw [Parser.attempt] at ho
    split at ho
    next hkey =>
      cases ho
      obtain ⟨_, _, -, ⟨⟩⟩ := bind_eq_ok_iff.mp hok
      cases htarget
      exact not_isNumber_of_mismatch (s := s) hkey rfl rfl hunsigned
    next =>
      cases ho
      cases hok
    next => cases ho

theorem card_eq : ∃ f : Bool → Parser Component,
    Parser.card = (Parser.tryKeyword "hidden" >>= f) ∧
      ∀ (w : Settings) (a : List Char) (hidden : Bool),
        Behaves w w.left.limit (.opens (Spells "card")) a a (f hidden)
          (Component.ReadBehind (if hidden then "hidden" else "card")) := by
  refine ⟨_, rfl, fun w a hidden => (keyword_opens (by decide)).opens_next fun _ _ => ?_⟩
  refine key.next fun id hid => string.next fun label _ => ?_
  refine string.attempt.next fun description _ => ?_
  refine (after? (by decide) elementAmount.located.delimited_round).next_bind ?_
  intro aspects aspects' haspects hsameAspects
  refine (after? (by decide) cardDecay).ofOptionRel.next fun decay hdecay => ?_
  refine keep_bind (block setClause.located (List.forall_iff_forall_mem.mp ⟨induceClause.located,
    uniqueClause.located, cardSlotClause.located, xtriggerClause.located⟩))
    fun ss ss' hss hsame => ?_
  have hparts := getD_of_forall_mem hdecay (none, none) ⟨nofun, nofun⟩
  have haspects := getD_of_forall_mem haspects [] nofun
  refine (construct (Card.build_refusesIn _ rfl (fun e he => (haspects e he).2)
    fun s hs => (hss s hs).2) (Card.build_agrees (getD_of_rel hsameAspects .nil) hsame _)
    fun r hr => ?_).keep fun r hr => value hr
  refine ⟨Card.build_wellFormed ?_ rfl rfl rfl (fun e he => (haspects e he).1)
    (fun s hs => (hss s hs).1) hr, ?_⟩
  · exact ⟨⟨hid, nofun, hparts.1, .nil, hparts.2, nofun, nofun, List.nodup_nil, nofun, nofun, nofun,
      nofun, .nil _⟩, .nil _⟩
  · rw [Component.firstWord, Component.isHidden, Card.build_hidden rfl hr]
    rfl

theorem card :
    Behaves w w.left.limit (.opens fun token => Spells "hidden" token ∨ Spells "card" token) a a
      Parser.card Component.WellBuilt := by
  obtain ⟨f, heq, hf⟩ := card_eq
  rw [heq]
  exact hidden_bind (hf w a)

theorem deck : Behaves w w.left.limit (.opens (Spells "deck")) a a Parser.deck
    (Component.ReadBehind "deck") := by
  refine (keyword_opens (by decide)).opens_next fun _ _ => key.next fun id hid => ?_
  refine string.attempt.next fun label _ => ?_
  refine either (e := .held) (k := .closed) (P := fun _ => True)
    (string.attempt.imp fun _ _ => trivial) (value trivial) fun description _ _ hdescription => ?_
  subst hdescription
  refine keep_bind (block defaultEntry.located (List.forall_iff_forall_mem.mp
    (deckCard false).located)) fun es es' hes hsame => ?_
  refine (construct (Deck.build_refusesIn _ rfl fun e he => (hes e he).2)
    (Deck.build_agrees hsame _) fun r hr => ?_).keep fun r hr => value ⟨hr, rfl⟩
  refine Deck.build_valid ?_ (fun e he => (hes e he).1) hr
  exact ⟨hid, nofun, nofun, rfl⟩

theorem verb : Behaves w w.left.limit (.opens (Spells "verb")) a a Parser.verb
    (Component.ReadBehind "verb") := by
  refine (keyword_opens (by decide)).opens_next fun _ _ => key.next fun id hid => ?_
  refine string.next fun label _ => string.keep fun description _ => ?_
  have hslot : Behaves w w.left.limit .closed a a
      (Parser.free do
        let slot ← Parser.slot
        Parser.symbol ")"
        return slot) Slot.Valid :=
    withNewlines true (slot.next fun _ hs => (symbol (by decide)).keep fun _ _ => value hs)
  refine (after? (by decide) hslot).ofOptionRel.keep fun slot hslot => ?_
  refine (lookingAt (by decide)).keep fun braces _ => ?_
  refine either (e := .held) (k := .held) (block setClause.located (List.forall_mem_nil _)).held
    (pure (List.forall_mem_nil _) .nil) fun ss ss' hss hsame => ?_
  refine (construct (Verb.build_refusesIn _ rfl fun s hs => (hss s hs).2)
    (Verb.build_agrees hsame _) fun r hr => ?_).keep fun r hr => value ⟨hr, rfl⟩
  refine Verb.build_wellFormed ?_ rfl (fun s hs => (hss s hs).1) hr
  exact ⟨⟨hid, hslot, .nil _⟩, .nil _⟩

theorem recipe : Behaves w w.left.limit (.opens (Spells "recipe")) a a Parser.recipe
    (Component.ReadBehind "recipe") := by
  refine (keyword_opens (by decide)).opens_next fun _ _ => key.next fun id hid => ?_
  refine key.next fun verb hverb => string.next fun label _ => string.attempt.next ?_
  intro description _
  refine either (e := .held) (k := .closed) (P := fun _ => True)
    (string.attempt.imp fun _ _ => trivial) (value trivial)
    fun endDescription _ _ hdescription => ?_
  subst hdescription
  refine keep_bind (block setClause.located (List.forall_iff_forall_mem.mp ⟨requireClause.located,
    quantityClause.located, mutateClause.located, (referenceClause (by decide)).located,
    branchClause.located, recipeSlotClause.located⟩)) fun ss ss' hss hsame => ?_
  refine (construct (Recipe.build_refusesIn _ rfl fun s hs => (hss s hs).2)
    (Recipe.build_agrees hsame _) fun r hr => ?_).keep fun r hr => value ⟨hr, rfl⟩
  have hzero : IsCount 0 := ⟨Int.le_refl 0, by decide⟩
  have hempty : ∀ q, ValidQuantity q [] := fun q => ⟨List.nodup_nil, nofun, nofun⟩
  refine Recipe.build_wellFormed ?_ rfl (fun s hs => (hss s hs).1) hr
  refine ⟨⟨hid, hverb, hzero, hzero, nofun, fun q _ => ?_, nofun, nofun, nofun, nofun, .nil _⟩,
    .nil _⟩
  cases q <;> exact hempty _

theorem legacy : Behaves w w.left.limit (.opens (Spells "legacy")) a a Parser.legacy
    (Component.ReadBehind "legacy") := by
  refine (keyword_opens (by decide)).opens_next fun _ _ => key.next fun id hid => ?_
  refine string.next fun label _ => string.next fun description _ => ?_
  refine string.attempt.next fun startDescription _ => ?_
  refine keep_bind (block setClause.located (List.forall_iff_forall_mem.mp
    ⟨(referenceClause (by decide)).located, (referenceClause (by decide)).located,
      (referenceClause (by decide)).located, (referenceClause (by decide)).located,
      startingCardClause.located⟩)) fun ss ss' hss hsame => ?_
  refine (construct (Legacy.build_refusesIn _ rfl fun s hs => (hss s hs).2)
    (Legacy.build_agrees hsame _) fun r hr => ?_).keep fun r hr => value ⟨hr, rfl⟩
  refine Legacy.build_wellFormed ?_ rfl (fun s hs => (hss s hs).1) hr
  exact ⟨⟨hid, nofun, nofun, nofun, List.nodup_nil, Nat.zero_le _, nofun, List.nodup_nil, .nil,
    .nil _⟩, .nil _⟩

theorem ending : Behaves w w.left.limit (.opens (Spells "ending")) a a Parser.ending
    (Component.ReadBehind "ending") := by
  refine (keyword_opens (by decide)).opens_next fun _ _ => key.next fun id hid => ?_
  refine string.next fun label _ => string.next fun description _ => ?_
  refine (lookingAt (by decide)).next fun braces _ => ite (fun _ => ?_) fun _ => fail _
  refine literal.located.keep_bind ?_
  rintro ⟨body, span⟩ ⟨_, span'⟩ ⟨hbody, hspan⟩ ⟨⟩
  refine (construct (Ending.build_refusesIn hspan id label description body)
    (Ending.build_agrees id label description body span span') fun r hr => ?_).keep
    fun r hr => value ⟨hr, rfl⟩
  exact Ending.build_wellFormed hid hbody hr

theorem component : Behaves w w.left.limit .closed a a Parser.component Component.WellBuilt := by
  have hkind {word : String} {O : List Char → Prop} {p : Parser Component}
      (h : Behaves w w.left.limit (.opens O) a a p (Component.ReadBehind word)) :
      Behaves w w.left.limit .closed a a p Component.WellBuilt :=
    h.closed.imp fun _ hc => hc.wellBuilt
  exact choice aspect.closed (List.forall_iff_forall_mem.mp ⟨card.closed, hkind deck, hkind verb,
    hkind recipe, hkind legacy, hkind ending⟩)

end Tandem

end CardLore
