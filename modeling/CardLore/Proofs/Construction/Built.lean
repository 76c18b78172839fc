import CardLore.Proofs.Construction.Component
import CardLore.Proofs.Construction.Invariant

namespace CardLore

namespace Aspect

def Invariant (r : Aspect) (_used : List String) : Prop :=
  Aspect.Valid 0 { r with others := [] }

theorem fields_keeps : fields.Keeps Invariant (·.others) where
  known := by
    intro e he value update _ hupdate r used hr
    simp only [fields, List.mem_cons, List.not_mem_nil, or_false] at he
    rcases he with rfl | rfl <;> obtain ⟨icon, -, ⟨⟩⟩ := bind_ok_iff.mp hupdate <;>
      exact ⟨{ hr with id := hr.id }, rfl⟩
  other := fun _ _ _ _ hr => ⟨hr, rfl⟩
  used := fun _ _ _ hr => hr

theorem addStatement_holds (d : Draft Aspect) (s : Statement) (d' : Draft Aspect)
    (hd : d.Holds Invariant (·.others) fields) (hs : s.value.WellFormed)
    (h : addStatement d s = .ok d') : d'.Holds Invariant (·.others) fields := by
  rw [addStatement] at h
  split at h
  next key value heq =>
    rw [heq] at hs
    exact hd.assign fields_keeps hs.1 hs.2 h
  next recipe chance heq =>
    rw [heq] at hs
    obtain ⟨e, hreserve, ⟨⟩⟩ := bind_ok_iff.mp h
    have he := hd.reserve fields_keeps hreserve
    exact he.modify { he.record with induces := forall_mem_some hs } rfl
  next x heq =>
    rw [heq] at hs
    cases h
    exact hd.modify { hd.record with xtriggers := forall_mem_concat hd.record.xtriggers hs } rfl
  next => cases h

theorem build_wellFormed {signature r : Aspect} (hsignature : signature.WellFormed)
    (hothers : signature.others = []) {statements : List Statement}
    (hstatements : ∀ s ∈ statements, s.value.WellFormed)
    (h : build signature statements = .ok r) : r.WellFormed := by
  obtain ⟨used, hr, hfree⟩ :=
    Draft.Holds.body addStatement_holds hsignature.known hothers hstatements h
  exact ⟨hr, hfree⟩

end Aspect

namespace Card

-- Both forms of `unique` are noted, so that the second of the two is refused.
structure Invariant (r : Card) (used : List String) : Prop where
  valid : Card.Valid 0 { r with others := [] }
  unique : r.unique = true → "unique" ∈ used
  group : r.uniquenessGroup ≠ none → "group" ∈ used

theorem fields_keeps : fields.Keeps Invariant (·.others) where
  known := by
    intro e he value update _ hupdate r used hr
    simp only [fields, List.mem_cons, List.not_mem_nil, or_false] at he
    rcases he with rfl | rfl | rfl <;> obtain ⟨v, -, ⟨⟩⟩ := bind_ok_iff.mp hupdate <;>
      exact ⟨⟨{ hr.valid with id := hr.valid.id }, hr.unique, hr.group⟩, rfl⟩
  other := fun _ _ _ _ hr => ⟨⟨hr.valid, hr.unique, hr.group⟩, rfl⟩
  used := fun _ _ _ hr => ⟨hr.valid, fun h => List.mem_append_left _ (hr.unique h),
    fun h => List.mem_append_left _ (hr.group h)⟩

theorem reserveUnique_ok {d d' : Draft Card} {own other : String} {twice : Span → Offence}
    {span : Span} (h : reserveUnique d own other twice span = .ok d') :
    other ∉ d.used.map (·.1) ∧ d' = ⟨d.record, d.assigned, d.used ++ [(own, span)]⟩ := by
  rw [reserveUnique] at h
  split at h
  · cases h
  · cases h
  · rename_i hother
    cases h
    exact ⟨not_mem_of_lookup_eq_none hother, rfl⟩

-- Where a slot goes, and that the verbs stay distinct.
theorem map_fst_addSlot (slots : List (Key × List Slot)) (verb : Key) (slot : Slot) :
    (addSlot slots verb slot).map (·.1) =
      if verb ∈ slots.map (·.1) then slots.map (·.1) else slots.map (·.1) ++ [verb] := by
  induction slots with
  | nil => rfl
  | cons e slots ih =>
      obtain ⟨v, own⟩ := e
      by_cases hv : v = verb
      · simp [addSlot, hv]
      · have hverb : ¬ verb = v := fun h => hv h.symm
        by_cases hmem : verb ∈ slots.map (·.1) <;>
          simp only [addSlot, if_neg hv, List.map_cons, ih, List.mem_cons, hverb, hmem, or_false,
            or_true, if_true, if_false, List.cons_append]

theorem forall_mem_addSlot {P : Key × List Slot → Prop} {slots : List (Key × List Slot)}
    {verb : Key} {slot : Slot} (hslots : ∀ e ∈ slots, P e) (hnew : P (verb, [slot]))
    (hmore : ∀ own, P (verb, own) → P (verb, own ++ [slot])) : ∀ e ∈ addSlot slots verb slot, P e := by
  induction slots with
  | nil => exact List.forall_mem_singleton.mpr hnew
  | cons e slots ih =>
      obtain ⟨v, own⟩ := e
      obtain ⟨he, hslots⟩ := List.forall_mem_cons.mp hslots
      rw [addSlot]
      split
      · rename_i hv
        subst hv
        exact List.forall_mem_cons.mpr ⟨hmore own he, hslots⟩
      · exact List.forall_mem_cons.mpr ⟨he, ih hslots⟩

theorem Valid.addSlot {r : Card} (hr : r.Valid 0) {verb : Key} (hverb : verb.Valid) {slot : Slot}
    (hslot : slot.Valid) : Card.Valid 0 { r with slots := addSlot r.slots verb slot } :=
  { hr with
    slotVerbs := by
      rw [map_fst_addSlot]
      split
      · exact hr.slotVerbs
      · rename_i hfresh
        exact nodup_concat hr.slotVerbs hfresh
    slotVerb := forall_mem_addSlot hr.slotVerb hverb fun _ h => h
    slotLists := forall_mem_addSlot hr.slotLists (List.cons_ne_nil _ _)
      fun _ _ => List.append_ne_nil_of_right_ne_nil _ (List.cons_ne_nil _ _)
    slots := forall_mem_addSlot hr.slots (List.forall_mem_singleton.mpr hslot)
      fun _ h => forall_mem_concat h hslot }

theorem addStatement_holds (d : Draft Card) (s : Statement) (d' : Draft Card)
    (hd : d.Holds Invariant (·.others) fields) (hs : s.value.WellFormed)
    (h : addStatement d s = .ok d') : d'.Holds Invariant (·.others) fields := by
  have hvalid := hd.record.valid
  rw [addStatement] at h
  split at h
  next key value heq =>
    rw [heq] at hs
    exact hd.assign fields_keeps hs.1 hs.2 h
  next recipe chance heq =>
    rw [heq] at hs
    obtain ⟨e, hreserve, ⟨⟩⟩ := bind_ok_iff.mp h
    have he := hd.reserve fields_keeps hreserve
    exact he.modify ⟨{ he.record.valid with induces := forall_mem_some hs }, he.record.unique,
      he.record.group⟩ rfl
  next heq =>
    obtain ⟨e, hreserve, ⟨⟩⟩ := bind_ok_iff.mp h
    obtain ⟨hgroup, rfl⟩ := reserveUnique_ok hreserve
    refine (hd.use fields_keeps "unique" s.span).modify
      ⟨{ hvalid with notBoth := fun _ => ?_ }, fun _ => by simp, fun h => ?_⟩ rfl
    · by_contra hsome
      exact hgroup (hd.record.group hsome)
    · exact absurd (hd.record.group h) hgroup
  next group heq =>
    rw [heq] at hs
    obtain ⟨e, hreserve, ⟨⟩⟩ := bind_ok_iff.mp h
    obtain ⟨hunique, rfl⟩ := reserveUnique_ok hreserve
    refine (hd.use fields_keeps "group" s.span).modify
      ⟨{ hvalid with notBoth := fun h => ?_, group := forall_mem_some (hs group rfl) },
        fun h => ?_, fun _ => by simp⟩ rfl
    · exact absurd (hd.record.unique h) hunique
    · exact absurd (hd.record.unique h) hunique
  next verb slot heq =>
    rw [heq] at hs
    cases h
    exact hd.modify ⟨hvalid.addSlot (hs.1 verb rfl) hs.2, hd.record.unique, hd.record.group⟩ rfl
  next x heq =>
    rw [heq] at hs
    cases h
    exact hd.modify ⟨{ hvalid with xtriggers := forall_mem_concat hvalid.xtriggers hs },
      hd.record.unique, hd.record.group⟩ rfl
  next => cases h

theorem addAspect_ok {aspects aspects' : List (Key × Int)} {entry : Located (Key × Int)}
    (h : addAspect aspects entry = .ok aspects') :
    entry.value.1 ∉ aspects.map (·.1) ∧ aspects' = aspects ++ [entry.value] := by
  rw [addAspect] at h
  split at h
  · cases h
  · rename_i hnone
    cases h
    exact ⟨not_mem_of_lookup_eq_none (Option.not_isSome_iff_eq_none.mp hnone), rfl⟩

theorem build_wellFormed {signature r : Card} (hsignature : signature.WellFormed)
    (hothers : signature.others = []) (hunique : signature.unique = false)
    (hgroup : signature.uniquenessGroup = none) {aspects : List (Located (Key × Int))}
    (haspects : ∀ a ∈ aspects, a.value.1.Valid ∧ IsCount a.value.2) {statements : List Statement}
    (hstatements : ∀ s ∈ statements, s.value.WellFormed)
    (h : build signature aspects statements = .ok r) : r.WellFormed := by
  obtain ⟨counts, hfold, h⟩ := bind_ok_iff.mp h
  have hcounts : ValidCounts counts := by
    refine foldlM_invariant (I := ValidCounts) ?_ ValidCounts.nil hfold
    intro counts a counts' ha hcounts hadd
    obtain ⟨hfresh, rfl⟩ := addAspect_ok hadd
    exact hcounts.concat hfresh (haspects a ha).1 (haspects a ha).2
  have hstart : Invariant { signature with aspects := counts } [] :=
    ⟨{ hsignature.known with aspects := hcounts }, fun h => by simp [hunique] at h,
      fun h => absurd hgroup h⟩
  obtain ⟨used, hr, hfree⟩ := Draft.Holds.body addStatement_holds hstart hothers hstatements h
  exact ⟨hr.valid, hfree⟩

end Card

theorem Deck.Valid.addCard {r : Deck} (hr : r.Valid) {entry : DeckEntry}
    (hentry : entry.card.Valid) : (r.addCard entry).Valid where
  id := hr.id
  card := forall_mem_concat hr.card hentry
  default := by
    intro card hcard
    change card ∈ (if entry.isDefault then some entry.card else r.default) at hcard
    change card ∈ (r.cards ++ [(entry.card, entry.description)]).map (·.1)
    rw [List.map_append]
    split at hcard
    · cases hcard
      exact List.mem_append_right _ List.mem_cons_self
    · exact List.mem_append_left _ (hr.default card hcard)
  portal := by
    change (r.isPortalDeck || entry.description.isSome) = (r.cards ++ [_]).any _
    rw [List.any_append, hr.portal]
    simp

theorem Deck.build_valid {signature r : Deck} (hsignature : signature.Valid)
    {entries : List (Located DeckEntry)} (hentries : ∀ e ∈ entries, e.value.card.Valid)
    (h : build signature entries = .ok r) : r.Valid := by
  obtain ⟨p, hfold, ⟨⟩⟩ := bind_ok_iff.mp h
  refine foldlM_invariant (I := fun p : Progress => p.deck.Valid) ?_ hsignature hfold
  intro p e p' he hp hadd
  rw [addEntry] at hadd
  split at hadd <;> cases hadd
  · exact hp.addCard (hentries e he)
  · exact hp.addCard (hentries e he)

namespace Verb

def Invariant (r : Verb) (_used : List String) : Prop :=
  Verb.Valid 0 { r with others := [] }

theorem fields_keeps : fields.Keeps Invariant (·.others) where
  known := nofun
  other := fun _ _ _ _ hr => ⟨hr, rfl⟩
  used := fun _ _ _ hr => hr

theorem addStatement_holds (d : Draft Verb) (s : Statement) (d' : Draft Verb)
    (hd : d.Holds Invariant (·.others) fields) (hs : s.value.WellFormed)
    (h : addStatement d s = .ok d') : d'.Holds Invariant (·.others) fields := by
  rw [addStatement] at h
  split at h
  next key value heq =>
    rw [heq] at hs
    exact hd.assign fields_keeps hs.1 hs.2 h
  next => cases h

theorem build_wellFormed {signature r : Verb} (hsignature : signature.WellFormed)
    (hothers : signature.others = []) {statements : List Statement}
    (hstatements : ∀ s ∈ statements, s.value.WellFormed)
    (h : build signature statements = .ok r) : r.WellFormed := by
  obtain ⟨used, hr, hfree⟩ :=
    Draft.Holds.body addStatement_holds hsignature.known hothers hstatements h
  exact ⟨hr, hfree⟩

end Verb

theorem Expulsion.build_valid {entries : List (Located (Key × Int))} {e : Expulsion}
    (hentries : ∀ e ∈ entries, e.value.1.Valid ∧ IsCount e.value.2)
    (h : Expulsion.build entries = .ok e) : ValidCounts e.elements := by
  obtain ⟨elements, hfold, h⟩ := bind_ok_iff.mp h
  cases h
  refine foldlM_invariant (I := ValidCounts) ?_ ValidCounts.nil hfold
  intro elements x elements' hx helements hadd
  obtain ⟨hfresh, rfl⟩ := addKeyed_ok hadd
  exact helements.concat hfresh (hentries x hx).1 (hentries x hx).2

theorem isCount_of_toCount {value : Literal} {n : Int} (hvalue : value.WellFormed)
    (h : value.toCount = .ok n) : IsCount n := by
  cases hvalue with
  | @int m hm =>
      rw [Literal.toCount] at h
      split at h
      · rename_i hle
        cases h
        exact ⟨hle, hm⟩
      · cases h
  | _ => cases h

namespace Recipe

def Invariant (r : Recipe) (_used : List String) : Prop :=
  Recipe.Valid 0 { r with others := [] }

theorem Invariant.withEntries {r : Recipe} {used : List String} (hr : Invariant r used)
    (q : Quantity) {entries : List (Key × Amount)} (h : ValidQuantity q entries) :
    Invariant (q.withEntries entries r) used := by
  have hquantities : ∀ other ∈ Quantity.all,
      ValidQuantity other (other.entries { q.withEntries entries r with others := [] }) := by
    intro other hother
    rw [Quantity.entries_others]
    by_cases heq : other = q
    · subst heq
      rwa [Quantity.entries_withEntries]
    · rw [Quantity.entries_withEntries_of_ne heq, ← Quantity.entries_others other r []]
      exact hr.quantities other hother
  cases q <;> exact { hr with quantities := hquantities }

theorem fields_keeps : fields.Keeps Invariant (·.others) where
  known := by
    intro e he value update hvalue hupdate r used hr
    have hquantities : ∀ q ∈ Quantity.all, ValidQuantity q (q.entries r) :=
      fun q hq => Quantity.entries_others q r [] ▸ hr.quantities q hq
    simp only [fields, List.mem_cons, List.not_mem_nil, or_false] at he
    rcases he with rfl | rfl | rfl | rfl | rfl | rfl | rfl <;>
      obtain ⟨v, hv, ⟨⟩⟩ := bind_ok_iff.mp hupdate
    · exact ⟨{ hr with
        warmup := isCount_of_toCount hvalue hv
        quantities := fun q hq => by cases q <;> exact hquantities _ hq }, rfl⟩
    · exact ⟨{ hr with
        maxExecutions := isCount_of_toCount hvalue hv
        quantities := fun q hq => by cases q <;> exact hquantities _ hq }, rfl⟩
    all_goals exact ⟨{ hr with
      quantities := fun q hq => by cases q <;> exact hquantities _ hq }, rfl⟩
  other := fun _ _ _ _ hr => ⟨hr, rfl⟩
  used := fun _ _ _ hr => hr

theorem addStatement_holds (d : Draft Recipe) (s : Statement) (d' : Draft Recipe)
    (hd : d.Holds Invariant (·.others) fields) (hs : s.value.WellFormed)
    (h : addStatement d s = .ok d') : d'.Holds Invariant (·.others) fields := by
  have hr := hd.record
  rw [addStatement] at h
  split at h
  next key value heq =>
    rw [heq] at hs
    exact hd.assign fields_keeps hs.1 hs.2 h
  next requirement heq =>
    rw [heq] at hs
    cases h
    exact hd.modify { hr with
      requirements := forall_mem_concat hr.requirements hs
      quantities := fun q hq => by cases q <;> exact hr.quantities _ hq } rfl
  next word element amount heq =>
    rw [heq] at hs
    obtain ⟨helement, q, rfl, hamount⟩ := hs
    simp only [Quantity.ofKeyword?_keyword] at h
    obtain ⟨entries, hadd, ⟨⟩⟩ := bind_ok_iff.mp h
    obtain ⟨hfresh, rfl⟩ := addKeyed_ok hadd
    have hq := hr.quantities q (by cases q <;> decide)
    rw [Quantity.entries_others] at hq
    exact hd.modify (hr.withEntries q (hq.concat hfresh helement hamount)) (by cases q <;> rfl)
  next mutation heq =>
    rw [heq] at hs
    cases h
    exact hd.modify { hr with
      mutations := forall_mem_concat hr.mutations hs
      quantities := fun q hq => by cases q <;> exact hr.quantities _ hq } rfl
  next target heq =>
    rw [heq] at hs
    obtain ⟨e, hreserve, ⟨⟩⟩ := bind_ok_iff.mp h
    have he := hd.reserve fields_keeps hreserve
    exact he.modify { he.record with
      ending := forall_mem_some hs.2
      quantities := fun q hq => by cases q <;> exact he.record.quantities _ hq } rfl
  next slot heq =>
    rw [heq] at hs
    obtain ⟨e, hreserve, ⟨⟩⟩ := bind_ok_iff.mp h
    have he := hd.reserve fields_keeps hreserve
    exact he.modify { he.record with
      slot := forall_mem_some hs.2
      quantities := fun q hq => by cases q <;> exact he.record.quantities _ hq } rfl
  next branch heq =>
    rw [heq] at hs
    cases h
    exact hd.modify { hr with
      branches := forall_mem_concat hr.branches hs
      quantities := fun q hq => by cases q <;> exact hr.quantities _ hq } rfl
  next => cases h

theorem build_wellFormed {signature r : Recipe} (hsignature : signature.WellFormed)
    (hothers : signature.others = []) {statements : List Statement}
    (hstatements : ∀ s ∈ statements, s.value.WellFormed)
    (h : build signature statements = .ok r) : r.WellFormed := by
  obtain ⟨used, hr, hfree⟩ :=
    Draft.Holds.body addStatement_holds hsignature.known hothers hstatements h
  exact ⟨hr, hfree⟩

end Recipe

namespace Legacy

def Invariant (r : Legacy) (_used : List String) : Prop :=
  Legacy.Valid 0 { r with others := [] }

theorem fields_keeps : fields.Keeps Invariant (·.others) where
  known := by
    intro e he value update _ hupdate r used hr
    simp only [fields, List.mem_cons, List.not_mem_nil, or_false] at he
    rcases he with rfl | rfl | rfl <;> obtain ⟨v, -, ⟨⟩⟩ := bind_ok_iff.mp hupdate <;>
      exact ⟨{ hr with id := hr.id }, rfl⟩
  other := fun _ _ _ _ hr => ⟨hr, rfl⟩
  used := fun _ _ _ hr => hr

theorem addStatus_ok {elements elements' : List Key} {target : Key} {span : Span}
    (h : addStatus elements target span = .ok elements') :
    target ∉ elements ∧ elements.length ≠ maxStatusElements ∧ elements' = elements ++ [target] := by
  rw [addStatus] at h
  split at h
  · cases h
  · rename_i hfresh
    split at h
    · cases h
    · rename_i hlength
      cases h
      exact ⟨hfresh, hlength, rfl⟩

theorem addExcluded_ok {excluded excluded' : List Key} {target : Key} {span : Span}
    (h : addExcluded excluded target span = .ok excluded') :
    target ∉ excluded ∧ excluded' = excluded ++ [target] := by
  rw [addExcluded] at h
  split at h
  · cases h
  · rename_i hfresh
    cases h
    exact ⟨hfresh, rfl⟩

theorem Invariant.addStatus {r : Legacy} {used : List String} (hr : Invariant r used) {target : Key}
    (htarget : target.Valid) {elements : List Key} {span : Span}
    (h : addStatus r.statusBarElements target span = .ok elements) :
    Invariant { r with statusBarElements := elements } used := by
  obtain ⟨hfresh, hlength, rfl⟩ := addStatus_ok h
  refine { hr with
    status := forall_mem_concat hr.status htarget
    statusNodup := nodup_concat hr.statusNodup hfresh
    statusLength := ?_ }
  have hle : r.statusBarElements.length ≤ maxStatusElements := hr.statusLength
  change (r.statusBarElements ++ [target]).length ≤ maxStatusElements
  rw [List.length_append, List.length_singleton]
  omega

theorem addStatement_holds (d : Draft Legacy) (s : Statement) (d' : Draft Legacy)
    (hd : d.Holds Invariant (·.others) fields) (hs : s.value.WellFormed)
    (h : addStatement d s = .ok d') : d'.Holds Invariant (·.others) fields := by
  have hr := hd.record
  rw [addStatement] at h
  split at h
  next key value heq =>
    rw [heq] at hs
    exact hd.assign fields_keeps hs.1 hs.2 h
  next target heq =>
    rw [heq] at hs
    obtain ⟨e, hreserve, ⟨⟩⟩ := bind_ok_iff.mp h
    have he := hd.reserve fields_keeps hreserve
    exact he.modify { he.record with startingVerb := forall_mem_some hs.2 } rfl
  next target heq =>
    rw [heq] at hs
    obtain ⟨e, hreserve, ⟨⟩⟩ := bind_ok_iff.mp h
    have he := hd.reserve fields_keeps hreserve
    exact he.modify { he.record with fromEnding := forall_mem_some hs.2 } rfl
  next target heq =>
    rw [heq] at hs
    obtain ⟨elements, hadd, ⟨⟩⟩ := bind_ok_iff.mp h
    exact hd.modify (hr.addStatus hs.2 hadd) rfl
  next target heq =>
    rw [heq] at hs
    obtain ⟨excluded, hadd, ⟨⟩⟩ := bind_ok_iff.mp h
    obtain ⟨hfresh, rfl⟩ := addExcluded_ok hadd
    exact hd.modify { hr with
      excluded := forall_mem_concat hr.excluded hs.2
      excludedNodup := nodup_concat hr.excludedNodup hfresh } rfl
  next card amount heq =>
    rw [heq] at hs
    obtain ⟨cards, hadd, ⟨⟩⟩ := bind_ok_iff.mp h
    obtain ⟨hfresh, rfl⟩ := addKeyed_ok hadd
    exact hd.modify { hr with
      startingCards := hr.startingCards.concat hfresh hs.1 hs.2 } rfl
  next => cases h

theorem build_wellFormed {signature r : Legacy} (hsignature : signature.WellFormed)
    (hothers : signature.others = []) {statements : List Statement}
    (hstatements : ∀ s ∈ statements, s.value.WellFormed)
    (h : build signature statements = .ok r) : r.WellFormed := by
  obtain ⟨used, hr, hfree⟩ :=
    Draft.Holds.body addStatement_holds hsignature.known hothers hstatements h
  exact ⟨hr, hfree⟩

end Legacy

namespace Ending

structure Collects (content : List (Text × Literal)) (members : List Member) : Prop where
  nodup : (members.map (·.lowered)).Nodup
  lowered : ∀ m ∈ members, m.lowered = Text.lower m.name
  mem : ∀ m ∈ members, (m.name, m.value) ∈ content

theorem collects_of_ok {content : List (Text × Literal)} {members : List Member} {span : Span}
    (h : collect content span = .ok members) : Collects content members := by
  have hnil : Collects content [] := ⟨List.nodup_nil, nofun, nofun⟩
  refine foldlM_invariant (I := Collects content) ?_ hnil h
  rintro seen ⟨name, value⟩ members' hmem hseen hadd
  change (if seen.any (·.lowered = Text.lower name) then .error ⟨.collidingMember name, span⟩
    else .ok (seen ++ [⟨Text.lower name, name, value⟩]) : Except Refusal (List Member)) = _ at hadd
  split at hadd
  · cases hadd
  · rename_i hfresh
    cases hadd
    refine ⟨nodup_map_concat hseen.nodup fun hold => hfresh ?_,
      forall_mem_concat hseen.lowered rfl, forall_mem_concat hseen.mem hmem⟩
    obtain ⟨m, hm, heq⟩ := List.mem_map.mp hold
    exact List.any_eq_true.mpr ⟨m, hm, decide_eq_true heq⟩

theorem build_wellFormed {id : Key} {label description : Text} {body : Literal} {span : Span}
    {r : Ending} (hid : id.Valid) (hbody : body.WellFormed)
    (h : build id label description body span = .ok r) : r.WellFormed := by
  cases hbody with
  | @object content hnames hcontent =>
      obtain ⟨members, hcollect, h⟩ := bind_ok_iff.mp h
      obtain ⟨image, -, h⟩ := bind_ok_iff.mp h
      cases image with
      | none => cases h
      | some image =>
          obtain ⟨music, -, h⟩ := bind_ok_iff.mp h
          obtain ⟨animation, -, h⟩ := bind_ok_iff.mp h
          obtain ⟨achievement, -, ⟨⟩⟩ := bind_ok_iff.mp h
          have hmembers := collects_of_ok hcollect
          refine ⟨hid, ?_, ?_, ?_⟩
          · have hlowered : ((members.filter (·.lowered ∉ knownNames)).map fun m =>
                Text.lower m.name) = (members.filter (·.lowered ∉ knownNames)).map (·.lowered) :=
              List.map_congr_left fun m hm =>
                (hmembers.lowered m (List.mem_of_mem_filter hm)).symm
            rw [List.map_map]
            exact hlowered ▸ hmembers.nodup.sublist (List.filter_sublist.map _)
          · intro e he
            obtain ⟨m, hm, rfl⟩ := List.mem_map.mp he
            obtain ⟨hmem, hunknown⟩ := List.mem_filter.mp hm
            rw [hmembers.lowered m hmem] at hunknown
            exact of_decide_eq_true hunknown
          · intro e he
            obtain ⟨m, hm, rfl⟩ := List.mem_map.mp he
            exact hcontent _ (hmembers.mem m (List.mem_of_mem_filter hm))
  | _ => cases h

end Ending

end CardLore
