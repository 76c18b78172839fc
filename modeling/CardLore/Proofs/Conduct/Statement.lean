import CardLore.Proofs.Conduct.Literal
import CardLore.Proofs.Conduct.Refusal
import CardLore.Statement.Parser

namespace CardLore

instance {α : Type} : Std.Refl (Located.Agrees (α := α)) :=
  ⟨fun _ => rfl⟩

-- The same modifiers, be it at other places.
def SameModifiers (ms ms' : List (Parser.SlotModifier × Nat)) : Prop :=
  List.Forall₂ (fun m m' => m.1 = m'.1) ms ms'

instance : Std.Refl SameModifiers :=
  ⟨fun _ => List.forall₂_same.mpr fun _ _ => rfl⟩

namespace SameModifiers

variable {ms ms' : List (Parser.SlotModifier × Nat)}

theorem firstRepeated?_isSome (h : SameModifiers ms ms') (seen : List Parser.SlotModifier) :
    (Parser.firstRepeated? seen ms).isSome = (Parser.firstRepeated? seen ms').isSome := by
  induction h generalizing seen with
  | nil => rfl
  | @cons m m' _ _ hsame _ ih =>
      obtain ⟨m, pos⟩ := m
      obtain ⟨_, pos'⟩ := m'
      cases hsame
      rw [Parser.firstRepeated?, Parser.firstRepeated?]
      by_cases hseen : m ∈ seen
      · rw [if_pos hseen, if_pos hseen]
        rfl
      · rw [if_neg hseen, if_neg hseen]
        exact ih (m :: seen)

theorem any_eq (h : SameModifiers ms ms') (m : Parser.SlotModifier) :
    ms.any (·.1 = m) = ms'.any (·.1 = m) := by
  induction h with
  | nil => rfl
  | cons hsame _ ih => rw [List.any_cons, List.any_cons, hsame, ih]

end SameModifiers

namespace Tandem

section

variable {α : Type} {w : Settings} {depth : Nat} {a : List Char} {p q : Parser α} {P : α → Prop}
  {R : α → α → Prop}

theorem located (h : Tandem .any w depth .closed a a p q P Eq) :
    Tandem .any w depth .closed a a (Parser.located p) (Parser.located q)
      (fun l => P l.value ∧ l.span.file = w.left.file) Located.Agrees :=
  ofTokenStart (e := .closed) fun start _ start' _ => narrow (h.keep fun _ hv =>
    spanFrom start start' fun _ _ hspan => pure ⟨hv, hspan⟩ rfl)

theorem after? [Std.Refl R] {text : String} (htext : IsMarker text)
    (h : Tandem .any w depth .closed a a p q P R) :
    Tandem .any w depth .held a a (Parser.after? text p) (Parser.after? text q)
      (fun o => ∀ v ∈ o, P v) (Option.Rel R) :=
  (symbol htext).held.found_bind
    (h.keep_bind fun _ _ hv hR => pure (forall_mem_some hv) (.some hR)).held (pure nofun .none)

theorem construct {result result' : Except Refusal α} (hrefuses : RefusesIn w.left.file result)
    (hsame : SameResult R result result') (hP : ∀ v, result = .ok v → P v) :
    Tandem .any w depth .held a a (Parser.construct result) (Parser.construct result') P R := by
  cases hsame with
  | ok hR => exact pure (hP _ rfl) hR
  | error => exact ⟨fun _ _ _ _ _ _ => .fault (hrefuses _ rfl), fun _ _ _ _ _ _ _ _ => .fault⟩

end

variable {w : Settings} {depth : Nat} {a : List Char}

theorem amountOrOne : Behaves w depth .held a a Parser.amountOrOne IsCount :=
  (symbol (by decide)).held.found_bind (unsigned.keep fun _ hn => value hn).held
    (value ⟨by decide, by decide⟩)

theorem setClause : Behaves w w.left.limit .closed a a Parser.setClause Clause.WellFormed :=
  (keyword (by decide)).next fun _ _ => key.next fun _ hkey => (symbol (by decide)).next fun _ _ =>
    literal.keep fun _ hvalue => value ⟨hkey, hvalue⟩

theorem induceClause : Behaves w depth .closed a a Parser.induceClause Clause.WellFormed :=
  (keyword (by decide)).next fun _ _ => key.next fun _ hkey => percentage.keep fun _ _ => value hkey

theorem chanceOrCertain : Behaves w depth .held a a Parser.chanceOrCertain fun _ => True :=
  percentage.held.attempt_bind (fun _ _ => value trivial) (value trivial)

-- A reaction is valid if its catalyst is.
theorem spawnReaction (catalyst : Key) :
    Behaves w depth .closed a a (Parser.spawnReaction catalyst)
      fun x => catalyst.Valid → x.Valid :=
  (keyword (by decide)).next fun _ _ => key.next fun _ htarget =>
    (symbol (by decide)).next fun _ _ => unsigned.keep fun _ hn => chanceOrCertain.keep fun _ _ =>
      value fun hcatalyst => ⟨hcatalyst, htarget, hn.2, fun _ => hn.1⟩

theorem mutateReaction (catalyst : Key) :
    Behaves w depth .closed a a (Parser.mutateReaction catalyst)
      fun x => catalyst.Valid → x.Valid :=
  (keyword (by decide)).next fun _ _ => key.next fun _ htarget =>
    (symbol (by decide)).next fun _ _ => signed.keep fun _ hn => chanceOrCertain.keep fun _ _ =>
      value fun hcatalyst => ⟨hcatalyst, htarget, hn, fun hmutate => absurd rfl hmutate⟩

theorem transformReaction (catalyst : Key) :
    Behaves w depth .closed a a (Parser.transformReaction catalyst)
      fun x => catalyst.Valid → x.Valid :=
  key.next fun _ htarget => (symbol (by decide)).next fun _ _ => unsigned.keep fun _ hn =>
    chanceOrCertain.keep fun _ _ =>
      value fun hcatalyst => ⟨hcatalyst, htarget, hn.2, fun _ => hn.1⟩

theorem bareReaction (catalyst : Key) :
    Behaves w depth .closed a a (Parser.bareReaction catalyst)
      fun x => catalyst.Valid → x.Valid :=
  key.keep fun _ htarget => chanceOrCertain.keep fun _ _ =>
    value fun hcatalyst =>
      ⟨hcatalyst, htarget, (by decide : IsInteger 1), fun _ => Int.one_nonneg⟩

theorem reaction (catalyst : Key) :
    Behaves w depth .closed a a (Parser.reaction catalyst) fun x => catalyst.Valid → x.Valid :=
  choice (spawnReaction catalyst) (List.forall_iff_forall_mem.mp
    ⟨mutateReaction catalyst, transformReaction catalyst, bareReaction catalyst⟩)

theorem xtriggerClause : Behaves w depth .closed a a Parser.xtriggerClause Clause.WellFormed :=
  (keyword (by decide)).next fun _ _ => key.next fun _ hcatalyst =>
    (symbol (by decide)).next fun _ _ => (reaction _).keep fun _ hx => value (hx hcatalyst)

-- What follows a mark, which may be spelled out.
theorem symbolOrKeyword_bindTo {α : Type} {c c' : Start} {P : α → Prop} {R : α → α → Prop}
    {text word : String} {f g : Bool → Parser α} (htext : IsMarker text) (hword : word ∈ keywords)
    (hto : c.LeadsTo 1 c') (htrue : Tandem c' w depth .any a a (f true) (g true) P R)
    (hfalse : Tandem c w depth .any a a (f false) (g false) P R) :
    Tandem c w depth .any a a (Parser.symbolOrKeyword text word >>= f)
      (Parser.symbolOrKeyword text word >>= g) P R := by
  have hsymbol : Tandem c w depth .closed a a (Parser.symbol text) (Parser.symbol text)
      (fun _ => True) Eq := (symbol htext).narrow
  have hkeyword : Tandem c w depth .closed a a (Parser.keyword word) (Parser.keyword word)
      (fun _ => True) Eq := (keyword hword).narrow
  rw [Parser.symbolOrKeyword, Parser.bind_assoc, Parser.bind_assoc]
  refine hsymbol.found_bindTo (k := .any) hto (.refl _) htrue ?_
  exact hkeyword.found_bindTo (k := .any) hto (.refl _) htrue hfalse

-- Each modifier takes at least one character. The trivia behind the last one is skipped before it
-- turns out to be the last.
theorem modifiers :
    Tandem .any w depth .any a a (fun ctx s => Parser.modifiersUpTo (s.rest.length + 1) ctx s)
      (fun ctx s => Parser.modifiersUpTo (s.rest.length + 1) ctx s) (fun _ => True)
      SameModifiers := by
  have hplaces : Std.Refl fun _ _ : Nat => True := ⟨fun _ => trivial⟩
  refine loop (fun bound (_ : Unit) => Parser.modifiersUpTo bound)
    (fun bound _ => Parser.modifiersUpTo bound) (I := fun _ _ => True) (i := ()) (j := ()) ?_
    trivial
  intro m n ih _ _ _
  have hmore (modifier : Parser.SlotModifier) (pos pos' : Nat) :=
    (ih () () trivial).keep_bind (f := fun ms => Pure.pure ((modifier, pos) :: ms))
      (g := fun ms => Pure.pure ((modifier, pos') :: ms)) (S := SameModifiers)
      (Q := fun _ => True) fun ms ms' _ hms => pure trivial (.cons rfl hms)
  refine tokenStart.narrow.bindTo (k := .any) (.stay _ _ _) fun pos pos' _ _ => ?_
  refine symbolOrKeyword_bindTo (by decide) (by decide) (.below m n) (hmore .consume pos pos') ?_
  refine symbolOrKeyword_bindTo (by decide) (by decide) (.below m n) (hmore .greedy pos pos') ?_
  exact (pure trivial .nil).any

theorem slotFilter : Behaves w depth .closed a a Parser.slotFilter SlotFilter.Valid :=
  (trySymbol (by decide)).next fun _ _ => key.keep fun _ helement => amountOrOne.keep fun _ hn =>
    value ⟨helement, hn⟩

theorem slot : Behaves w depth .closed a a Parser.slot Slot.Valid := by
  refine modifiers.next_bind fun ms ms' _ hms => (keyword (by decide)).next fun _ _ => ?_
  have hrepeated := hms.firstRepeated?_isSome []
  cases hfirst : Parser.firstRepeated? [] ms with
  | some first =>
      rw [hfirst] at hrepeated
      obtain ⟨first', hfirst'⟩ := Option.isSome_iff_exists.mp hrepeated.symm
      rw [hfirst']
      exact refuseBetween rfl _ _ _ _ _
  | none =>
      rw [hfirst] at hrepeated
      have hfirst' : Parser.firstRepeated? [] ms' = none :=
        Option.not_isSome_iff_eq_none.mp (hrepeated ▸ Bool.false_ne_true)
      rw [hfirst']
      refine key.next fun id hid => string.next fun label _ => string.keep fun description _ => ?_
      refine (after? (by decide) slotFilter.delimited_round.ofForall₂).ofOptionRel.keep ?_
      intro requirements hrequirements
      simp only [hms.any_eq]
      exact value ⟨hid, getD_of_forall_mem hrequirements [] nofun⟩

theorem recipeSlotClause : Behaves w depth .closed a a Parser.recipeSlotClause Clause.WellFormed :=
  slot.keep fun _ hslot => value ⟨nofun, hslot⟩

theorem cardSlotClause : Behaves w depth .closed a a Parser.cardSlotClause Clause.WellFormed :=
  key.next fun _ hverb => (symbol (by decide)).next fun _ _ => slot.keep fun _ hslot =>
    value ⟨forall_mem_some hverb, hslot⟩

theorem uniqueClause : Behaves w depth .closed a a Parser.uniqueClause Clause.WellFormed :=
  (keyword (by decide)).keep fun _ _ => key.attempt.keep fun _ hgroup => value hgroup

theorem deckCard (isDefault : Bool) :
    Behaves w depth .closed a a (Parser.deckCard isDefault) fun e => e.card.Valid :=
  key.keep fun _ hcard => string.attempt.keep fun _ _ => value hcard

theorem defaultEntry : Behaves w depth .closed a a Parser.defaultEntry fun e => e.card.Valid :=
  (symbol (by decide)).found_bind (deckCard true).held
    ((keyword (by decide)).next fun _ _ => deckCard true)

theorem elementAmount :
    Behaves w depth .closed a a Parser.elementAmount fun e => e.1.Valid ∧ IsCount e.2 :=
  key.keep fun _ helement => amountOrOne.keep fun _ hn => value ⟨helement, hn⟩

-- What is read as an element could not be read as a number.
theorem requirementBody (kind : RequirementKind) :
    Behaves w depth .closed a a (Parser.requirementBody kind) Requirement.Valid := by
  refine key.next fun element helement => (symbol (by decide)).next fun _ _ => ?_
  refine signed.attempt_bindKnown (k := .held)
    (T := fun r => ∃ k, r = ⟨kind, element, .element k⟩ ∧ k.Valid) (.any _ _) (.refl _) ?_
    (key.keep fun k hk => value ⟨k, rfl, hk⟩) ?_
  · rintro n _ hn rfl
    exact value ⟨helement, hn⟩
  · rintro ctx s _ _ furthest _ t hsigned hok ⟨k, rfl, hk⟩
    obtain ⟨_, _, hkey, ⟨⟩⟩ := bind_eq_ok_iff.mp hok
    exact ⟨helement, hk, not_isSignedNumber_of_mismatch (s := s) hkey rfl rfl hsigned⟩

theorem qualifiedRequirement {kind : RequirementKind}
    (h : RequirementKind.enumeration.wordFor kind ∈ keywords) :
    Behaves w depth .closed a a (Parser.qualifiedRequirement kind) Requirement.Valid :=
  (keyword h).next fun _ _ => requirementBody kind

theorem requirement : Behaves w depth .closed a a Parser.requirement Requirement.Valid :=
  choice (qualifiedRequirement (by decide)) (List.forall_iff_forall_mem.mp
    ⟨qualifiedRequirement (by decide), requirementBody .basic⟩)

theorem requireClause : Behaves w depth .closed a a Parser.requireClause Clause.WellFormed :=
  (keyword (by decide)).next fun _ _ => requirement.keep fun _ hr => value hr

theorem operation : Behaves w depth .closed a a Parser.operation Operation.Valid :=
  (symbol (by decide)).found_bind (unsigned.keep fun _ hn => value ⟨hn.2, fun _ => hn.1⟩).held
    (signed.keep fun _ hn => value ⟨hn, nofun⟩)

theorem quantityWord : Behaves w depth .closed a a Parser.quantityWord fun _ => True := by
  have hword : ∀ q : Quantity, Behaves w depth .closed a a
      (do Parser.keyword q.keyword; return q : Parser Quantity) fun _ => True := by
    intro q
    exact (keyword (by cases q <;> decide)).keep fun _ _ => value trivial
  exact choice (hword .effect) (List.forall_iff_forall_mem.mp
    ⟨hword .aspect, hword .purge, hword .draw, hword .halt, hword .delete⟩)

theorem quantityClause : Behaves w depth .closed a a Parser.quantityClause Clause.WellFormed := by
  refine quantityWord.next fun q _ => key.next fun element helement =>
    (symbol (by decide)).next fun _ _ => ite (fun hchange => ?_) fun hcount => ?_
  · exact operation.keep fun o ho => value ⟨helement, q, rfl, hchange, ho⟩
  · exact unsigned.keep fun n hn => value ⟨helement, q, rfl, Bool.eq_false_iff.mpr hcount, hn⟩

theorem mutateClause : Behaves w depth .closed a a Parser.mutateClause Clause.WellFormed :=
  (keyword (by decide)).next fun _ _ => key.next fun _ hid => key.next fun _ haspect =>
    (symbol (by decide)).next fun _ _ => operation.keep fun _ ho => value ⟨hid, haspect, ho⟩

theorem referenceClause {word : String} (hword : word ∈ keywords) :
    Behaves w depth .closed a a (Parser.referenceClause word) Clause.WellFormed :=
  (keyword hword).next fun _ _ => key.keep fun _ htarget => value ⟨hword, htarget⟩

theorem branchKind : Behaves w depth .closed a a Parser.branchKind fun _ => True :=
  (keyword (by decide)).found_bind (value trivial)
    ((keyword (by decide)).keep fun _ _ => value trivial)

theorem gotoTail : Behaves w depth .held a a Parser.gotoTail fun tail =>
    (∀ e ∈ tail.2, ValidCounts e.elements) ∧ (tail.1 = true → tail.2 = none) := by
  refine (keyword (by decide)).held.found_bind (value ⟨nofun, fun _ => rfl⟩) ?_
  refine (keyword (by decide)).held.found_bind (held ?_) (value ⟨nofun, fun _ => rfl⟩)
  refine (symbol (by decide)).next fun _ _ => ?_
  refine elementAmount.located.delimited_round.keep_bind fun entries entries' hentries hsame => ?_
  refine (construct (Expulsion.build_refusesIn fun e he => (hentries e he).2)
    (Expulsion.build_agrees hsame)
    fun e he => Expulsion.build_valid (fun e he => (hentries e he).1) he).keep fun e he => ?_
  exact value ⟨forall_mem_some he, nofun⟩

theorem branchClause : Behaves w depth .closed a a Parser.branchClause Clause.WellFormed := by
  refine branchKind.next fun kind _ => key.keep fun target htarget =>
    tryPercentage.keep fun chance _ => ?_
  refine (after? (by decide) requirement.delimited_round.ofForall₂).ofOptionRel.keep ?_
  intro requirements hrequirements
  have hall := getD_of_forall_mem hrequirements [] nofun
  cases kind with
  | link => exact value ⟨htarget, hall, nofun, fun _ => ⟨rfl, rfl⟩, nofun⟩
  | goto =>
      exact gotoTail.keep fun tail htail => value ⟨htarget, hall, htail.1, nofun, htail.2⟩

theorem startingCardClause :
    Behaves w depth .closed a a Parser.startingCardClause Clause.WellFormed :=
  (keyword (by decide)).next fun _ _ => key.keep fun _ hcard => amountOrOne.keep fun _ hn =>
    value ⟨hcard, hn⟩

end Tandem

end CardLore
