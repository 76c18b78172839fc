import CardLore.Construction.Deck
import CardLore.Proofs.Construction.Draft
import CardLore.Proofs.Text.Lower

namespace CardLore

theorem Aspect.build_clauses {limit : Nat} {r : Aspect} (h : r.Valid limit) {statements : List Statement}
    (hs : statements.map (·.value) = r.clauses) :
    Aspect.build
      { id := r.id, label := r.label, description := r.description, hidden := r.hidden
        decaysTo := r.decaysTo } statements = .ok r := by
  have hset : ∀ (d : Draft Aspect) key value span,
      addStatement d ⟨.set key value, span⟩ = d.assign fields key value span := fun _ _ _ _ => rfl
  exact Builds.run hs <|
    .append (Builds.assignText hset (fun icon r => { r with icon }) (by decide) (by decide) rfl
      (fun _ => rfl) rfl (fun _ => rfl) r.icon) <|
    .append (Builds.assignText hset (fun verbicon r => { r with verbicon }) (by decide) (by decide)
      rfl (fun _ => rfl) rfl (fun _ => rfl) r.verbicon) <|
    .append (Builds.assignOthers hset (fun others r => { r with others }) rfl (fun _ _ _ => rfl)
      (by decide) h.others) <|
    .append (Builds.option (fun induces (r : Aspect) => { r with induces }) rfl
      (List.Subset.refl _) (List.subset_cons_self "induce" _)
      (fun _ => Builds.reserve (fun _ _ => rfl) (by decide) rfl) r.induces) <|
    Builds.items (fun xtriggers (r : Aspect) => { r with xtriggers }) rfl
      fun _ _ _ _ => Builds.modify (fun _ _ => rfl) rfl

theorem Card.foldlM_addAspect {aspects : List (Key × Int)} (h : ValidCounts aspects)
    {located : List (Located (Key × Int))} (hs : located.map (·.value) = aspects) :
    located.foldlM addAspect [] = .ok aspects := by
  refine foldlM_fresh (fun entries e hfresh => ?_) h.nodup hs
  rw [addAspect, lookup_eq_none_of_not_mem hfresh]
  rfl

-- Either form of `unique`, as long as neither was used.
theorem Card.builds_unique {c : Clause} {own other : String} {twice : Span → Offence}
    {f : Card → Card} {record record' : Card} {assigned : List Key} {used : List String}
    (hadd : ∀ d span, addStatement d ⟨c, span⟩ = do
      let d ← reserveUnique d own other twice span
      return d.modify f)
    (hown : own ∉ used) (hother : other ∉ used) (hf : f record = record') :
    Builds addStatement [c] ⟨record, assigned, used⟩ ⟨record', assigned, own :: used⟩ := by
  refine Builds.single fun d span hd => ?_
  refine ⟨(⟨d.record, d.assigned, d.used ++ [(own, span)]⟩ : Draft Card).modify f, ?_, ?_, hd.assigned,
    map_fst_append_subset hd.used own span⟩
  · rw [hadd, reserveUnique, lookup_eq_none_of_not_mem fun h => hown (hd.used h),
      lookup_eq_none_of_not_mem fun h => hother (hd.used h)]
    rfl
  · rw [← hf]
    exact congrArg f hd.record

theorem Card.builds_uniqueClauses {record : Card} {assigned : List Key} {unique : Bool}
    {group : Option Key} (h : unique = true → group = none) (hunique : record.unique = false)
    (hgroup : record.uniquenessGroup = none) :
    Builds addStatement (uniqueClauses unique group) ⟨record, assigned, ["induce"]⟩
      ⟨{ record with unique, uniquenessGroup := group }, assigned,
        ["group", "unique", "induce"]⟩ := by
  cases unique with
  | true =>
      obtain rfl := h rfl
      exact Builds.widen (builds_unique (fun _ _ => rfl) (by decide) (by decide) (by rw [← hgroup]))
        (List.Subset.refl _) (List.subset_cons_self "group" _)
  | false =>
      cases group with
      | none => exact Builds.keep (by rw [← hunique, ← hgroup]) (List.Subset.refl _) (by decide)
      | some group =>
          exact Builds.widen (builds_unique (fun _ _ => rfl) (by decide) (by decide)
            (by rw [← hunique])) (List.Subset.refl _) (by decide)

-- The slots of a verb behind those of other verbs.
def withSlots (slots : List (Key × List Slot)) (verb : Key) (own : List Slot) :
    List (Key × List Slot) :=
  if own = [] then slots else slots ++ [(verb, own)]

theorem addSlot_withSlots {slots : List (Key × List Slot)} {verb : Key}
    (h : verb ∉ slots.map (·.1)) (own : List Slot) (slot : Slot) :
    Card.addSlot (withSlots slots verb own) verb slot = withSlots slots verb (own ++ [slot]) := by
  have hne : own ++ [slot] ≠ [] := List.append_ne_nil_of_right_ne_nil _ (List.cons_ne_nil _ _)
  rw [withSlots, withSlots, if_neg hne]
  induction slots with
  | nil =>
      by_cases hown : own = []
      · subst hown
        rfl
      · rw [if_neg hown, List.nil_append, Card.addSlot, if_pos rfl]
        rfl
  | cons entry slots ih =>
      obtain ⟨v, others⟩ := entry
      rw [List.map_cons, List.mem_cons, not_or] at h
      have hrest := ih h.2
      by_cases hown : own = []
      · rw [if_pos hown] at hrest ⊢
        rw [Card.addSlot, if_neg (Ne.symm h.1), hrest]
        rfl
      · rw [if_neg hown] at hrest ⊢
        rw [List.cons_append, Card.addSlot, if_neg (Ne.symm h.1), hrest]
        rfl

theorem Card.builds_slots {record : Card} {assigned : List Key} {used : List String}
    {slots : List (Key × List Slot)} (hverbs : (slots.map (·.1)).Nodup)
    (hlists : ∀ e ∈ slots, e.2 ≠ []) (hslots : record.slots = []) :
    Builds addStatement (slots.flatMap fun e => e.2.map (.slot (some e.1)))
      ⟨record, assigned, used⟩ ⟨{ record with slots }, assigned, used⟩ := by
  have hflat : Builds addStatement (slots.flatMap fun e => e.2.map (.slot (some e.1)))
      ⟨{ record with slots := [] }, assigned, used⟩ ⟨{ record with slots }, assigned, used⟩ := by
    refine Builds.flatMap (fun slots => ⟨{ record with slots }, assigned, used⟩) ?_
    rintro before ⟨verb, own⟩ after rfl
    rw [List.map_append, List.map_cons] at hverbs
    have hfresh : verb ∉ before.map (·.1) := not_mem_of_nodup_append hverbs
    have hown : withSlots before verb own = before ++ [(verb, own)] :=
      if_neg (hlists _ List.mem_append_cons_self)
    rw [← hown]
    refine Builds.items (fun own (r : Card) => { r with slots := withSlots before verb own }) rfl ?_
    intro own' slot _ _
    exact Builds.modify (fun _ _ => rfl)
      (congrArg (fun slots => { record with slots }) (addSlot_withSlots hfresh own' slot))
  rwa [← hslots] at hflat

theorem Card.build_clauses {limit : Nat} {r : Card} (h : r.Valid limit) {aspects : List (Located (Key × Int))}
    {statements : List Statement} (haspects : aspects.map (·.value) = r.aspects)
    (hs : statements.map (·.value) = r.clauses) :
    Card.build
      { id := r.id, label := r.label, description := r.description, hidden := r.hidden
        decaysTo := r.decaysTo, lifetime := r.lifetime } aspects statements = .ok r := by
  have hset : ∀ (d : Draft Card) key value span,
      addStatement d ⟨.set key value, span⟩ = d.assign fields key value span := fun _ _ _ _ => rfl
  rw [Card.build, foldlM_addAspect h.aspects haspects]
  exact Builds.run hs <|
    .append (Builds.assignText hset (fun icon r => { r with icon }) (by decide) (by decide) rfl
      (fun _ => rfl) rfl (fun _ => rfl) r.icon) <|
    .append (Builds.assignText hset (fun verbicon r => { r with verbicon }) (by decide) (by decide)
      rfl (fun _ => rfl) rfl (fun _ => rfl) r.verbicon) <|
    .cons (Builds.assign_known hset (by decide) (by decide) rfl rfl rfl) <|
    .append (Builds.assignOthers hset (fun others r => { r with others }) rfl (fun _ _ _ => rfl)
      (by decide) h.others) <|
    .append (Builds.option (fun induces (r : Card) => { r with induces }) rfl
      (List.Subset.refl _) (List.subset_cons_self "induce" _)
      (fun _ => Builds.reserve (fun _ _ => rfl) (by decide) rfl) r.induces) <|
    .append (Card.builds_uniqueClauses h.notBoth rfl rfl) <|
    .append (Card.builds_slots h.slotVerbs h.slotLists rfl) <|
    Builds.items (fun xtriggers (r : Card) => { r with xtriggers }) rfl
      fun _ _ _ _ => Builds.modify (fun _ _ => rfl) rfl

-- A deck with more cards, none of which is the default one.
def Deck.addCards (deck : Deck) (cards : List (Key × Option Text)) : Deck :=
  { deck with cards := deck.cards ++ cards, isPortalDeck := deck.isPortalDeck || cards.any (·.2.isSome) }

theorem Deck.addCards_cons (deck : Deck) (card : Key) (description : Option Text)
    (cards : List (Key × Option Text)) :
    (addCard deck ⟨card, description, false⟩).addCards cards =
      deck.addCards ((card, description) :: cards) := by
  simp [addCard, addCards, Bool.or_assoc]

theorem Deck.foldlM_plain {cards : List (Key × Option Text)} {entries : List (Located DeckEntry)}
    (h : entries.map (·.value) = deckEntries none cards) (p : Progress) :
    entries.foldlM addEntry p = .ok ⟨p.deck.addCards cards, p.defaultAt⟩ := by
  induction cards generalizing entries p with
  | nil =>
      obtain rfl := List.map_eq_nil_iff.mp h
      simp [addCards, pure, Except.pure]
  | cons card cards ih =>
      obtain ⟨⟨_, span⟩, later, rfl, rfl, hlater⟩ := List.map_eq_cons_iff.mp h
      obtain ⟨deck, defaultAt⟩ := p
      rw [List.foldlM_cons, ← addCards_cons]
      exact ih hlater ⟨addCard deck ⟨card.1, card.2, false⟩, defaultAt⟩

-- The first card with the default key is marked, and no other card is.
theorem Deck.foldlM_default {default : Key} {cards : List (Key × Option Text)}
    (hdefault : default ∈ cards.map (·.1)) {entries : List (Located DeckEntry)}
    (h : entries.map (·.value) = deckEntries (some default) cards) (deck : Deck) :
    ∃ place, entries.foldlM addEntry ⟨deck, none⟩ =
      .ok ⟨{ deck.addCards cards with default := some default }, place⟩ := by
  induction cards generalizing entries deck with
  | nil => cases hdefault
  | cons card cards ih =>
      obtain ⟨card, description⟩ := card
      rw [deckEntries] at h
      by_cases heq : card = default
      · subst heq
        rw [if_pos rfl] at h
        obtain ⟨⟨_, span⟩, later, rfl, rfl, hlater⟩ := List.map_eq_cons_iff.mp h
        refine ⟨some span, ?_⟩
        rw [List.foldlM_cons, ← addCards_cons]
        exact foldlM_plain hlater ⟨addCard deck ⟨card, description, true⟩, some span⟩
      · rw [if_neg heq] at h
        obtain ⟨⟨_, span⟩, later, rfl, rfl, hlater⟩ := List.map_eq_cons_iff.mp h
        have hmem := (List.mem_cons.mp hdefault).resolve_left (Ne.symm heq)
        rw [List.foldlM_cons, ← addCards_cons]
        exact ih hmem hlater (addCard deck ⟨card, description, false⟩)

theorem Deck.build_entries {r : Deck} (h : r.Valid) {entries : List (Located DeckEntry)}
    (hs : entries.map (·.value) = deckEntries r.default r.cards) :
    Deck.build { id := r.id, label := r.label, description := r.description } entries = .ok r := by
  obtain ⟨id, label, description, default, cards, isPortalDeck⟩ := r
  obtain rfl : isPortalDeck = cards.any (·.2.isSome) := h.portal
  cases default with
  | none =>
      rw [Deck.build, foldlM_plain hs]
      simp [addCards, bind, Except.bind, pure, Except.pure]
  | some default =>
      obtain ⟨_, hfold⟩ := foldlM_default (h.default default rfl) hs { id, label, description }
      rw [Deck.build, hfold]
      simp [addCards, bind, Except.bind, pure, Except.pure]

theorem Verb.build_clauses {limit : Nat} {r : Verb} (h : r.Valid limit) {statements : List Statement}
    (hs : statements.map (·.value) = assignOthers r.others) :
    Verb.build { id := r.id, label := r.label, description := r.description, slot := r.slot }
      statements = .ok r :=
  Builds.run hs (Builds.assignOthers (fun _ _ _ _ => rfl) (fun others r => { r with others }) rfl
    (fun _ _ _ => rfl) (by decide) h.others)

theorem toCount_int {n : Int} (h : 0 ≤ n) : (Literal.int n).toCount = .ok n :=
  if_pos h

-- The word for a member names it again.
theorem Enumeration.find?_wordFor {α : Type} [BEq α] {e : Enumeration α} {member : α}
    (hlower : ((e.wordFor member).toList.all fun c => c.toNat < 128 ∧ c.toLower = c) = true)
    (h : (e.members.find? fun entry =>
      Text.ofString entry.1 = Text.ofString (e.wordFor member)).map (·.2) = some member) :
    e.find? (e.wordFor member) = some member := by
  rw [find?, lower_ofString hlower]
  exact h

theorem toMember_wordFor (style : WarmupStyle) :
    (Literal.string (WarmupStyle.enumeration.wordFor style)).toMember WarmupStyle.enumeration =
      .ok style := by
  have hfind : WarmupStyle.enumeration.find? (WarmupStyle.enumeration.wordFor style) = some style :=
    Enumeration.find?_wordFor (by cases style <;> decide) (by cases style <;> rfl)
  rw [Literal.toMember, Literal.toText]
  simp only [bind, Except.bind, hfind]

namespace Quantity

theorem entries_withEntries (q : Quantity) (entries : List (Key × Amount)) (r : Recipe) :
    q.entries (q.withEntries entries r) = entries := by
  cases r
  cases q <;> rfl

theorem withEntries_withEntries (q : Quantity) (entries entries' : List (Key × Amount))
    (r : Recipe) : q.withEntries entries (q.withEntries entries' r) = q.withEntries entries r := by
  cases r
  cases q <;> rfl

theorem withEntries_entries (q : Quantity) (r : Recipe) : q.withEntries (q.entries r) r = r := by
  cases r
  cases q <;> rfl

end Quantity

theorem Recipe.builds_quantity {q : Quantity} {entries : List (Key × Amount)}
    (h : ValidQuantity q entries) {record : Recipe} (hempty : q.entries record = [])
    {assigned : List Key} {used : List String} :
    Builds addStatement (quantityClauses q entries) ⟨record, assigned, used⟩
      ⟨q.withEntries entries record, assigned, used⟩ := by
  refine Builds.items (fun entries r => q.withEntries entries r) ?_ ?_
  · rw [← hempty, q.withEntries_entries]
  · rintro before ⟨key, amount⟩ after rfl
    have hfresh : key ∉ before.map (·.1) := by
      have hnodup := h.nodup
      rw [List.map_append, List.map_cons] at hnodup
      exact not_mem_of_nodup_append hnodup
    refine Builds.modifyM (fun r span => addKeyed (q.entries r) q.entryName key amount span)
      (fun entries r => q.withEntries entries r) (fun d span => ?_) (fun span => ?_)
      (q.withEntries_withEntries _ _ _)
    · simp only [addStatement, q.ofKeyword?_keyword]
    · rw [q.entries_withEntries, addKeyed_fresh hfresh]

theorem Quantity.entries_withEntries_of_ne {q other : Quantity} (h : q ≠ other)
    (entries : List (Key × Amount)) (r : Recipe) :
    q.entries (other.withEntries entries r) = q.entries r := by
  cases q <;> cases other <;> simp_all [Quantity.entries, Quantity.withEntries]

-- The record with the quantities of `r` in `qs`.
def Recipe.withQuantities (r : Recipe) (qs : List Quantity) (record : Recipe) : Recipe :=
  qs.foldl (fun record q => q.withEntries (q.entries r) record) record

theorem Recipe.entries_withQuantities {r record : Recipe} {q : Quantity} {qs : List Quantity}
    (h : q ∉ qs) : q.entries (r.withQuantities qs record) = q.entries record := by
  induction qs generalizing record with
  | nil => rfl
  | cons other qs ih =>
      rw [List.mem_cons, not_or] at h
      exact (ih h.2).trans (Quantity.entries_withEntries_of_ne h.1 _ _)

theorem Recipe.withQuantities_all (r record : Recipe) :
    r.withQuantities Quantity.all record =
      { record with
        effects := r.effects, aspects := r.aspects, purge := r.purge, draws := r.draws
        halt := r.halt, delete := r.delete } := by
  cases record
  rfl

theorem Recipe.builds_quantities {r record : Recipe}
    (h : ∀ q ∈ Quantity.all, ValidQuantity q (q.entries r))
    (hempty : ∀ q : Quantity, q.entries record = []) {assigned : List Key} {used : List String} :
    Builds addStatement (Quantity.all.flatMap fun q => quantityClauses q (q.entries r))
      ⟨record, assigned, used⟩
      ⟨{ record with
          effects := r.effects, aspects := r.aspects, purge := r.purge, draws := r.draws
          halt := r.halt, delete := r.delete }, assigned, used⟩ := by
  rw [← withQuantities_all]
  refine Builds.flatMap (fun qs => ⟨r.withQuantities qs record, assigned, used⟩) ?_
  intro before q after hall
  have hnodup : (before ++ q :: after).Nodup := hall ▸ (by decide : Quantity.all.Nodup)
  have hfresh : q ∉ before := not_mem_of_nodup_append hnodup
  have hq : q ∈ Quantity.all := hall ▸ List.mem_append_cons_self
  have hnone : q.entries (r.withQuantities before record) = [] :=
    (entries_withQuantities hfresh).trans (hempty q)
  have hlast : r.withQuantities (before ++ [q]) record =
      q.withEntries (q.entries r) (r.withQuantities before record) := by
    rw [withQuantities, List.foldl_append]
    rfl
  rw [hlast]
  exact builds_quantity (h q hq) hnone

theorem Recipe.build_clauses {limit : Nat} {r : Recipe} (h : r.Valid limit) {statements : List Statement}
    (hs : statements.map (·.value) = r.clauses) :
    Recipe.build
      { id := r.id, verb := r.verb, label := r.label, description := r.description
        endDescription := r.endDescription } statements = .ok r := by
  have hset : ∀ (d : Draft Recipe) key value span,
      addStatement d ⟨.set key value, span⟩ = d.assign fields key value span := fun _ _ _ _ => rfl
  exact Builds.run hs <|
    .cons (Builds.assign_known hset (by decide) (by decide) rfl
      (f := fun r' => { r' with warmup := r.warmup })
      (by simp only [toCount_int h.warmup.1]; rfl) rfl) <|
    .cons (Builds.assign_known hset (by decide) (by decide) rfl
      (f := fun r' => { r' with maxExecutions := r.maxExecutions })
      (by simp only [toCount_int h.maxExecutions.1]; rfl) rfl) <|
    .cons (Builds.assign_known hset (by decide) (by decide) rfl rfl rfl) <|
    .cons (Builds.assign_known hset (by decide) (by decide) rfl rfl rfl) <|
    .append (Builds.assignText hset (fun burn r => { r with burn }) (by decide) (by decide) rfl
      (fun _ => rfl) rfl (fun _ => rfl) r.burn) <|
    .append (Builds.assignText hset (fun portal r => { r with portal }) (by decide) (by decide) rfl
      (fun _ => rfl) rfl (fun _ => rfl) r.portal) <|
    .cons (Builds.assign_known hset (by decide) (by decide) rfl
      (f := fun r' => { r' with style := r.style })
      (by simp only [toMember_wordFor]; rfl) rfl) <|
    .append (Builds.assignOthers hset (fun others r => { r with others }) rfl (fun _ _ _ => rfl)
      (by decide) h.others) <|
    .append (Builds.items (fun requirements (r : Recipe) => { r with requirements }) rfl
      fun _ _ _ _ => Builds.modify (fun _ _ => rfl) rfl) <|
    .append (builds_quantities h.quantities fun q => by cases q <;> rfl) <|
    .append (Builds.items (fun mutations (r : Recipe) => { r with mutations }) rfl
      fun _ _ _ _ => Builds.modify (fun _ _ => rfl) rfl) <|
    .append (Builds.option (fun ending (r : Recipe) => { r with ending }) rfl
      (List.Subset.refl _) (List.subset_cons_self "ending" _)
      (fun _ => Builds.reserve (fun _ _ => rfl) (by decide) rfl) r.ending) <|
    .append (Builds.option (fun slot (r : Recipe) => { r with slot }) rfl
      (List.Subset.refl _) (List.subset_cons_self "slot" _)
      (fun _ => Builds.reserve (fun _ _ => rfl) (by decide) rfl) r.slot) <|
    Builds.items (fun branches (r : Recipe) => { r with branches }) rfl
      fun _ _ _ _ => Builds.modify (fun _ _ => rfl) rfl

theorem Legacy.addStatus_fresh {elements after : List Key} {target : Key}
    (hnodup : (elements ++ target :: after).Nodup)
    (hlength : (elements ++ target :: after).length ≤ maxStatusElements) (span : Span) :
    addStatus elements target span = .ok (elements ++ [target]) := by
  rw [List.length_append, List.length_cons] at hlength
  rw [addStatus, if_neg (not_mem_of_nodup_append hnodup), if_neg (by omega)]

theorem Legacy.build_clauses {limit : Nat} {r : Legacy} (h : r.Valid limit) {statements : List Statement}
    (hs : statements.map (·.value) = r.clauses) :
    Legacy.build
      { id := r.id, label := r.label, description := r.description
        startDescription := r.startDescription } statements = .ok r := by
  have hset : ∀ (d : Draft Legacy) key value span,
      addStatement d ⟨.set key value, span⟩ = d.assign fields key value span := fun _ _ _ _ => rfl
  exact Builds.run hs <|
    .cons (Builds.assign_known hset (by decide) (by decide) rfl rfl rfl) <|
    .cons (Builds.assign_known hset (by decide) (by decide) rfl rfl rfl) <|
    .cons (Builds.assign_known hset (by decide) (by decide) rfl rfl rfl) <|
    .append (Builds.assignOthers hset (fun others r => { r with others }) rfl (fun _ _ _ => rfl)
      (by decide) h.others) <|
    .append (Builds.option (fun startingVerb (r : Legacy) => { r with startingVerb }) rfl
      (List.Subset.refl _) (List.subset_cons_self "verb" _)
      (fun _ => Builds.reserve (fun _ _ => rfl) (by decide) rfl) r.startingVerb) <|
    .append (Builds.option (fun fromEnding (r : Legacy) => { r with fromEnding }) rfl
      (List.Subset.refl _) (List.subset_cons_self "ending" _)
      (fun _ => Builds.reserve (fun _ _ => rfl) (by decide) rfl) r.fromEnding) <|
    .append (Builds.items (fun statusBarElements (r : Legacy) => { r with statusBarElements }) rfl
      fun _ target _ hall => Builds.modifyM
        (fun r span => addStatus r.statusBarElements target span)
        (fun statusBarElements r => { r with statusBarElements }) (fun _ _ => rfl)
        (addStatus_fresh (hall ▸ h.statusNodup) (hall ▸ h.statusLength)) rfl) <|
    .append (Builds.items
      (fun excludeAfterLegacies (r : Legacy) => { r with excludeAfterLegacies }) rfl
      fun _ target _ hall => Builds.modifyM
        (fun r span => addExcluded r.excludeAfterLegacies target span)
        (fun excludeAfterLegacies r => { r with excludeAfterLegacies }) (fun _ _ => rfl)
        (fun _ => if_neg (not_mem_of_nodup_append (hall ▸ h.excludedNodup))) rfl) <|
    Builds.items (fun startingCards (r : Legacy) => { r with startingCards }) rfl
      fun before entry _ hall => Builds.modifyM
        (fun r span => addKeyed r.startingCards "starting card" entry.1 entry.2 span)
        (fun startingCards r => { r with startingCards }) (fun _ _ => rfl)
        (addKeyed_fresh (not_mem_of_nodup_append (by
          have hnodup := h.startingCards.nodup
          rwa [hall, List.map_append, List.map_cons] at hnodup)) _ _) rfl

namespace Ending

def toMember (m : Text × Literal) : Member :=
  ⟨Text.lower m.1, m.1, m.2⟩

theorem collect_nodup {body : List (Text × Literal)}
    (h : (body.map fun m => Text.lower m.1).Nodup) (span : Span) :
    collect body span = .ok (body.map toMember) := by
  have hsteps : ∀ (after before : List (Text × Literal)), body = before ++ after →
      after.foldlM (fun seen m =>
        if seen.any (·.lowered = Text.lower m.1) then .error ⟨.collidingMember m.1, span⟩
        else .ok (seen ++ [toMember m])) (before.map toMember) =
      (.ok (body.map toMember) : Except Refusal (List Member)) := by
    intro after
    induction after with
    | nil =>
        intro before hbody
        rw [hbody, List.append_nil]
        rfl
    | cons m after ih =>
        intro before hbody
        have hfresh : (before.map toMember).any (·.lowered = Text.lower m.1) = false := by
          rw [hbody, List.map_append, List.map_cons] at h
          simp only [List.any_eq_false, decide_eq_true_eq]
          rintro _ hmem heq
          obtain ⟨m', hm', rfl⟩ := List.mem_map.mp hmem
          exact not_mem_of_nodup_append h (List.mem_map.mpr ⟨m', hm', heq⟩)
        have hnext := ih (before ++ [m]) (by rw [hbody, List.append_assoc]; rfl)
        rw [List.map_append] at hnext
        rw [List.foldlM_cons]
        simp only [hfresh]
        exact hnext
  exact hsteps body [] rfl

theorem body_map_toMember (r : Ending) :
    r.body.map toMember =
      ⟨"image", "image", .string r.image⟩ ::
        ⟨"flavour", "flavour", .string (EndingMusic.enumeration.wordFor r.music)⟩ ::
        ⟨"anim", "anim", .string (EndingAnimation.enumeration.wordFor r.animation)⟩ ::
        ⟨"achievementid", "achievementid", .string r.achievement⟩ ::
        r.others.map fun e => ⟨Text.lower e.1.text, e.1.text, e.2⟩ := by
  simp only [body, toMember, List.map_cons, List.map_map, Function.comp_def]
  rw [lower_ofString (by decide), lower_ofString (by decide), lower_ofString (by decide),
    lower_ofString (by decide)]

theorem nodup_body {limit : Nat} {r : Ending} (h : r.Valid limit) :
    (r.body.map fun m => Text.lower m.1).Nodup := by
  have hknown : r.body.map (fun m => Text.lower m.1) =
      knownNames ++ r.others.map fun e => Text.lower e.1.text := by
    have hlowered := congrArg (List.map Member.lowered) r.body_map_toMember
    simp only [List.map_map, List.map_cons] at hlowered
    exact hlowered
  rw [hknown]
  refine List.nodup_append.mpr ⟨by decide, h.nodup, ?_⟩
  rintro name hname _ hother rfl
  obtain ⟨e, he, rfl⟩ := List.mem_map.mp hother
  exact h.unknown e he hname

theorem fits_body {limit : Nat} {r : Ending} (h : r.Valid limit) :
    (Literal.object r.body).Fits limit := by
  obtain ⟨depth, rfl⟩ := Nat.exists_eq_add_of_le' h.depth
  have hlowered : ((r.body.map (·.1)).map Text.lower).Nodup := by
    rw [List.map_map]
    exact nodup_body h
  have hnames : (r.body.map (·.1)).Nodup :=
    List.Pairwise.of_map Text.lower (fun _ _ hne heq => hne (congrArg Text.lower heq)) hlowered
  refine .object hnames ?_
  simp only [body, List.forall_mem_cons, List.forall_mem_map]
  exact ⟨.string _, .string _, .string _, .string _, h.value⟩

theorem textOf?_first (name : String) (written t : Text) (members : List Member) (span : Span) :
    textOf? (⟨name, written, .string t⟩ :: members) name span = .ok (some t) := by
  simp [textOf?]

theorem textOf?_later {name : String} {lowered : Text} (h : lowered ≠ Text.ofString name)
    (written : Text) (value : Literal) (members : List Member) (span : Span) :
    textOf? (⟨lowered, written, value⟩ :: members) name span = textOf? members name span := by
  simp [textOf?, h]

theorem filter_known {lowered : Text} (h : lowered ∈ knownNames) (written : Text) (value : Literal)
    (members : List Member) :
    (⟨lowered, written, value⟩ :: members).filter (·.lowered ∉ knownNames) =
      members.filter (·.lowered ∉ knownNames) := by
  simp [h]

theorem build_body {limit : Nat} {r : Ending} (h : r.Valid limit) (span : Span) :
    Ending.build r.id r.label r.description (.object r.body) span = .ok r := by
  have hmusic : EndingMusic.enumeration.find? (EndingMusic.enumeration.wordFor r.music) =
      some r.music :=
    Enumeration.find?_wordFor (by cases r.music <;> decide) (by cases r.music <;> rfl)
  have hanimation : EndingAnimation.enumeration.find?
      (EndingAnimation.enumeration.wordFor r.animation) = some r.animation :=
    Enumeration.find?_wordFor (by cases r.animation <;> decide) (by cases r.animation <;> rfl)
  have hmembers := r.body_map_toMember
  have hcollect := collect_nodup (nodup_body h) span
  generalize r.body.map toMember = members at hmembers hcollect
  have himage : textOf? members "image" span = .ok (some r.image) := by
    rw [hmembers, textOf?_first]
  have hflavour : textOf? members "flavour" span =
      .ok (some (EndingMusic.enumeration.wordFor r.music)) := by
    rw [hmembers, textOf?_later (by decide), textOf?_first]
  have hanim : textOf? members "anim" span =
      .ok (some (EndingAnimation.enumeration.wordFor r.animation)) := by
    rw [hmembers, textOf?_later (by decide), textOf?_later (by decide), textOf?_first]
  have hachievement : textOf? members "achievementid" span = .ok (some r.achievement) := by
    rw [hmembers, textOf?_later (by decide), textOf?_later (by decide), textOf?_later (by decide),
      textOf?_first]
  have hothers : (members.filter (·.lowered ∉ knownNames)).map
      (fun m => ((⟨m.name⟩ : Key), m.value)) = r.others := by
    have hkeep : (r.others.map fun e => (⟨Text.lower e.1.text, e.1.text, e.2⟩ : Member)).filter
        (·.lowered ∉ knownNames) =
        r.others.map fun e => (⟨Text.lower e.1.text, e.1.text, e.2⟩ : Member) := by
      rw [List.filter_eq_self]
      intro m hm
      obtain ⟨e, he, rfl⟩ := List.mem_map.mp hm
      exact decide_eq_true (h.unknown e he)
    rw [hmembers, filter_known (by decide), filter_known (by decide), filter_known (by decide),
      filter_known (by decide), hkeep, List.map_map]
    exact List.map_id r.others
  simp only [build, hcollect, memberOf, bind, Except.bind, himage, hflavour, hmusic, hanim,
    hanimation, hachievement, hothers]
  rfl

end Ending

end CardLore
