import CardLore.Declaration.Component
import CardLore.Proofs.Choice.Statement
import CardLore.Proofs.Conduct.Statement

namespace CardLore

section

variable {α ι : Type} {newlines : Bool} {check : Parser α → Parser α} {p : Parser α}
  {C : Spot → Prop}

theorem checksBehind_id : ChecksBehind (id : Parser α → Parser α) :=
  fun _ _ _ h => h

theorem checksBehind_terminated : ChecksBehind (Parser.terminated : Parser α → Parser α) := by
  rintro p ctx s ⟨v, t, h⟩
  obtain ⟨w, u, hp, -⟩ := bind_eq_ok_iff.mp h
  exact ⟨w, u, hp⟩

-- An alternative is found wherever it passes the check.
theorem Bid.Holds.of_commits (hcheck : ChecksBehind check) (hsteady : Steady p)
    (hp : Commits newlines p C) : Bid.Holds newlines check ⟨p, C, C⟩ :=
  ⟨hsteady, hp, fun _ _ hctx haccepts => hp.of_accepts hctx (hcheck _ _ _ haccepts)⟩

-- Alternatives with labels that tell what they find.
theorem undisputed_of_labels {D : ι → Spot → Prop} (labelled : List (Parser α × ι))
    (hfound : ∀ l ∈ labelled, Steady l.1 ∧ Commits newlines l.1 (D l.2))
    (hclash : labelled.Pairwise fun l l' => ∀ x, D l.2 x → ¬ D l'.2 x) {first : Parser α}
    {others : List (Parser α)} (halternatives : labelled.map Prod.fst = first :: others)
    {ctx : Context} (hctx : ctx.newlines = newlines) (s : State) :
    Undisputed id (Parser.choice first others) (first :: others) ctx s := by
  refine undisputed_of_bids checksBehind_id (labelled.map fun l => ⟨l.1, D l.2, D l.2⟩) ?_ ?_ ?_
    hctx s
  · refine List.forall_mem_map.mpr fun l hl => ?_
    exact .of_commits checksBehind_id (hfound l hl).1 (hfound l hl).2
  · exact List.pairwise_map.mpr hclash
  · rw [← halternatives, List.map_map]
    rfl

theorem undisputed_of_heads (openings : List (Parser α × List Head))
    (hopens : ∀ o ∈ openings, Steady o.1 ∧ Commits false o.1 (Front false (Among o.2)))
    (hvalid : ∀ h ∈ openings.flatMap Prod.snd, h.Valid)
    (hnodup : (openings.flatMap Prod.snd).Nodup) {first : Parser α} {others : List (Parser α)}
    (halternatives : openings.map Prod.fst = first :: others) (ctx : Context) (s : State) :
    Undisputed id (Parser.choice first others) (first :: others)
      { ctx with newlines := false } s := by
  refine undisputed_of_labels (D := fun heads => Front false (Among heads)) openings hopens ?_
    halternatives rfl s
  refine (List.nodup_flatMap.mp hnodup).2.imp_of_mem fun {o o'} ho ho' hdisjoint x hx => ?_
  refine hx.clash fun cs => Among.clash (fun h hh => ?_) hdisjoint
  rcases List.mem_append.mp hh with hh | hh
  · exact hvalid h (List.mem_flatMap_of_mem ho hh)
  · exact hvalid h (List.mem_flatMap_of_mem ho' hh)

-- A keyword with `A` behind it, or a name with `B` behind it.
def Leads (newlines : Bool) (A B : Spot → Prop) : Option String → Spot → Prop
  | some w => WordThen newlines w A
  | none => KeyThen newlines B

-- A keyword that is read as a name up to the same place.
def IsNameLike (w : String) : Prop :=
  w ∈ keywords ∧ 'k' ∉ w.toList

instance (w : String) : Decidable (IsNameLike w) :=
  inferInstanceAs (Decidable (_ ∧ _))

theorem Leads.clash {A B : Spot → Prop} (hAB : ∀ y, A y → ¬ B y) {l l' : Option String}
    (hl : ∀ w ∈ l, IsNameLike w) (hl' : ∀ w ∈ l', IsNameLike w) (hne : l ≠ l') {x : Spot}
    (h : Leads newlines A B l x) : ¬ Leads newlines A B l' x := by
  cases l with
  | none =>
      cases l' with
      | none => exact absurd rfl hne
      | some w =>
          obtain ⟨hw, hk⟩ := hl' w rfl
          exact fun h' => WordThen.clash_key hw hk hAB h' h
  | some v =>
      obtain ⟨hv, hk⟩ := hl v rfl
      cases l' with
      | none => exact WordThen.clash_key hv hk hAB h
      | some w => exact WordThen.clash_word hv (hl' w rfl).1 (fun heq => hne (heq ▸ rfl)) h

theorem undisputed_of_leads {A B : Spot → Prop} (hAB : ∀ y, A y → ¬ B y)
    (leading : List (Parser α × Option String))
    (hleads : ∀ l ∈ leading, Steady l.1 ∧ Commits newlines l.1 (Leads newlines A B l.2))
    (hvalid : ∀ l ∈ leading.map Prod.snd, ∀ w ∈ l, IsNameLike w)
    (hnodup : (leading.map Prod.snd).Nodup) {first : Parser α} {others : List (Parser α)}
    (halternatives : leading.map Prod.fst = first :: others) {ctx : Context}
    (hctx : ctx.newlines = newlines) (s : State) :
    Undisputed id (Parser.choice first others) (first :: others) ctx s := by
  refine undisputed_of_labels leading hleads ?_ halternatives hctx s
  refine (List.pairwise_map.mp hnodup).imp_of_mem fun {l l'} hl hl' hne x hx => ?_
  exact Leads.clash hAB (hvalid _ (List.mem_map_of_mem hl)) (hvalid _ (List.mem_map_of_mem hl')) hne hx

end

-- The parser runs another one, for some values that it reads before.
inductive Runs {α : Type} (q : Parser α) : {β : Type} → Parser β → Prop
  | here : Runs q q
  | first {β γ : Type} {p : Parser β} {f : β → Parser γ} (h : Runs q p) : Runs q (p >>= f)
  | next {β γ : Type} {p : Parser β} {f : β → Parser γ} (v : β) (h : Runs q (f v)) :
      Runs q (p >>= f)

-- The component has a block with these alternatives, and no text in it is disputed.
def HasUndisputedBlock {α β : Type} (component : Parser β) (first : Parser α)
    (others : List (Parser α)) : Prop :=
  Runs (Parser.block first others) component ∧ ∀ (ctx : Context) (s : State),
    Undisputed id (Parser.choice (Parser.terminated first) (others.map Parser.terminated))
      ((first :: others).map Parser.terminated) { ctx with newlines := false } s

section

variable {α : Type}

theorem Steady.statement {p : Parser α} {P : α → Prop}
    (h : ∀ w : Settings, Behaves w w.left.limit .closed [] [] p P) :
    Steady (Parser.terminated (Parser.located p)) :=
  .of fun w => (h w).located.terminated

theorem steady_and_opens {p : Parser α} {P : α → Prop} {heads : List Head}
    (h : ∀ w : Settings, Behaves w w.left.limit .closed [] [] p P)
    (hp : Commits false p (Front false (Among heads))) :
    Steady (Parser.terminated (Parser.located p)) ∧
      Commits false (Parser.terminated (Parser.located p)) (Front false (Among heads)) :=
  ⟨Steady.statement h, hp.statement Front.of_skips⟩

theorem aspect_undisputed : HasUndisputedBlock Parser.aspect (Parser.located Parser.setClause)
    [Parser.located Parser.induceClause, Parser.located Parser.xtriggerClause] := by
  refine ⟨.next true (.next () (.next (Key.ofChars []) (.next [] (.next [] (.next none
    (.first .here)))))), fun ctx s => ?_⟩
  refine undisputed_of_heads
    [(_, [.word "set"]), (_, [.word "induce"]), (_, [.word "xtrigger"])] ?_ (by decide) (by decide)
    rfl ctx s
  simp only [List.forall_mem_cons]
  exact ⟨steady_and_opens (fun _ => Tandem.setClause) (.word (by decide)),
    steady_and_opens (fun _ => Tandem.induceClause) (.word (by decide)),
    steady_and_opens (fun _ => Tandem.xtriggerClause) (.word (by decide)), List.forall_mem_nil _⟩

theorem recipe_undisputed : HasUndisputedBlock Parser.recipe (Parser.located Parser.setClause)
    [Parser.located Parser.requireClause, Parser.located Parser.quantityClause,
      Parser.located Parser.mutateClause, Parser.located (Parser.referenceClause "ending"),
      Parser.located Parser.branchClause, Parser.located Parser.recipeSlotClause] := by
  refine ⟨.next () (.next (Key.ofChars []) (.next (Key.ofChars []) (.next [] (.next none (.next none
    (.first .here)))))), fun ctx s => ?_⟩
  refine undisputed_of_heads
    [(_, [.word "set"]), (_, [.word "require"]), (_, quantityHeads), (_, [.word "mutate"]),
      (_, [.word "ending"]), (_, branchHeads), (_, slotHeads)] ?_ (by decide) (by decide) rfl ctx s
  simp only [List.forall_mem_cons]
  exact ⟨steady_and_opens (fun _ => Tandem.setClause) (.word (by decide)),
    steady_and_opens (fun _ => Tandem.requireClause) (.word (by decide)),
    steady_and_opens (fun _ => Tandem.quantityClause) Commits.quantityWord.left,
    steady_and_opens (fun _ => Tandem.mutateClause) (.word (by decide)),
    steady_and_opens (fun _ => Tandem.referenceClause (by decide)) (.word (by decide)),
    steady_and_opens (fun _ => Tandem.branchClause) Commits.branchKind.left,
    steady_and_opens (fun _ => Tandem.recipeSlotClause) Commits.slot.left, List.forall_mem_nil _⟩

theorem legacy_undisputed : HasUndisputedBlock Parser.legacy (Parser.located Parser.setClause)
    [Parser.located (Parser.referenceClause "verb"), Parser.located (Parser.referenceClause "ending"),
      Parser.located (Parser.referenceClause "status"),
      Parser.located (Parser.referenceClause "exclude"),
      Parser.located Parser.startingCardClause] := by
  refine ⟨.next () (.next (Key.ofChars []) (.next [] (.next [] (.next none (.first .here))))),
    fun ctx s => ?_⟩
  refine undisputed_of_heads
    [(_, [.word "set"]), (_, [.word "verb"]), (_, [.word "ending"]), (_, [.word "status"]),
      (_, [.word "exclude"]), (_, [.word "card"])] ?_ (by decide) (by decide) rfl ctx s
  simp only [List.forall_mem_cons]
  exact ⟨steady_and_opens (fun _ => Tandem.setClause) (.word (by decide)),
    steady_and_opens (fun _ => Tandem.referenceClause (by decide)) (.word (by decide)),
    steady_and_opens (fun _ => Tandem.referenceClause (by decide)) (.word (by decide)),
    steady_and_opens (fun _ => Tandem.referenceClause (by decide)) (.word (by decide)),
    steady_and_opens (fun _ => Tandem.referenceClause (by decide)) (.word (by decide)),
    steady_and_opens (fun _ => Tandem.startingCardClause) (.word (by decide)),
    List.forall_mem_nil _⟩

theorem not_arrow_of_continues (y : Spot) (h : Front false Continues y) :
    ¬ Front false ("->".toList <+: ·) y := by
  refine h.clash fun cs hcs harrow => ?_
  rcases hcs with hkey | hends
  · exact not_startsKey_of_arrow harrow hkey
  · exact not_endsStatement (by decide) (head?_of_isPrefix harrow) hends

theorem steady_and_leads {p : Parser α} {P : α → Prop} {word : String}
    (h : ∀ w : Settings, Behaves w w.left.limit .closed [] [] p P)
    (hp : Commits false p (WordThen false word (Front false StartsKey))) :
    Steady (Parser.terminated (Parser.located p)) ∧
      Commits false (Parser.terminated (Parser.located p))
        (WordThen false word (Front false Continues)) := by
  refine ⟨Steady.statement h, (hp.statement WordThen.of_skips).mono ?_⟩
  rintro x ⟨y, hword, hkey⟩
  exact ⟨y, hword, hkey.imp fun _ => .inl⟩

theorem card_undisputed : HasUndisputedBlock Parser.card (Parser.located Parser.setClause)
    [Parser.located Parser.induceClause, Parser.located Parser.uniqueClause,
      Parser.located Parser.cardSlotClause, Parser.located Parser.xtriggerClause] := by
  refine ⟨.next true (.next () (.next (Key.ofChars []) (.next [] (.next none (.next none (.next none
    (.first .here))))))), fun ctx s => ?_⟩
  have hctx : { ctx with newlines := false }.newlines = false := rfl
  have hslot : Commits false Parser.cardSlotClause
      (KeyThen false (Front false ("->".toList <+: ·))) := .keyThen fun _ => .mark
  refine undisputed_of_leads not_arrow_of_continues
    [(_, some "set"), (_, some "induce"), (_, some "unique"), (_, none), (_, some "xtrigger")]
    ?_ (by decide) (by decide) rfl hctx s
  simp only [List.forall_mem_cons]
  exact ⟨steady_and_leads (fun _ => Tandem.setClause) .wordThenKey,
    steady_and_leads (fun _ => Tandem.induceClause) .wordThenKey,
    ⟨Steady.statement fun _ => Tandem.uniqueClause, .uniqueStatement⟩,
    ⟨Steady.statement fun _ => Tandem.cardSlotClause, hslot.statement KeyThen.of_skips⟩,
    steady_and_leads (fun _ => Tandem.xtriggerClause) .wordThenKey, List.forall_mem_nil _⟩

-- The mark or the keyword of the default card of a deck.
def DefaultOpens (x : Spot) : Prop :=
  Front false (Among [.mark '!']) x ∨ WordThen false "default" (Front false StartsKey) x

theorem DefaultOpens.of_skips {x m : Spot} (hskips : SkipsTo false x m) (h : DefaultOpens m) :
    DefaultOpens x :=
  h.imp (Front.of_skips hskips) (WordThen.of_skips hskips)

theorem DefaultOpens.not_card {x : Spot} (h : DefaultOpens x) :
    ¬ KeyThen false (Front false Describes) x := by
  rcases h with hmark | hword
  · intro hcard
    refine hmark.clash (fun cs hcs => ?_) hcard.front
    obtain ⟨_, hh, hmatches⟩ := hcs
    obtain rfl := List.mem_singleton.mp hh
    exact not_startsKey_of_head (by decide) hmatches
  · refine hword.clash_key (by decide) (by decide) fun y hkey => ?_
    refine hkey.clash fun cs hcs hdescribes => ?_
    rcases hdescribes with hquote | hends
    · exact not_startsKey_of_head (by decide) hquote hcs
    · exact not_startsKey_of_endsStatement hends hcs

theorem deck_undisputed : HasUndisputedBlock Parser.deck (Parser.located Parser.defaultEntry)
    [Parser.located (Parser.deckCard false)] := by
  refine ⟨.next () (.next (Key.ofChars []) (.next none (.next none (.first .here)))),
    fun ctx s => ?_⟩
  have hctx : { ctx with newlines := false }.newlines = false := rfl
  have hkeyword : Commits false (do Parser.keyword "default"; Parser.deckCard true) DefaultOpens :=
    Commits.wordThenKey.mono fun _ => .inr
  have hdefault : Commits false Parser.defaultEntry DefaultOpens :=
    .found (Expects.symbol "!") (fun _ _ h => .inl (.of_mark (by decide) rfl h)) hkeyword
  refine undisputed_of_labels (D := fun isDefault => if isDefault then DefaultOpens else
    KeyThen false (Front false Describes)) [(_, true), (_, false)] ?_ ?_ rfl hctx s
  · simp only [List.forall_mem_cons]
    exact ⟨⟨Steady.statement fun _ => Tandem.defaultEntry,
      hdefault.statement DefaultOpens.of_skips⟩,
      ⟨Steady.statement fun _ => Tandem.deckCard false, .deckCardStatement false⟩,
      List.forall_mem_nil _⟩
  · exact List.pairwise_pair.mpr fun _ => DefaultOpens.not_card

end

theorem not_colon_of_startsKey (newlines : Bool) (y : Spot) (h : Front newlines StartsKey y) :
    ¬ Front newlines (":".toList <+: ·) y := by
  refine h.clash fun cs hkey hcolon => ?_
  exact not_startsKey_of_head (by decide) (head?_of_isPrefix hcolon) hkey

theorem requirement_undisputed (ctx : Context) (s : State) :
    Undisputed id Parser.requirement [Parser.qualifiedRequirement .table,
      Parser.qualifiedRequirement .extant, Parser.requirementBody .basic] ctx s := by
  have hbasic : Commits ctx.newlines (Parser.requirementBody .basic)
      (KeyThen ctx.newlines (Front ctx.newlines (":".toList <+: ·))) := .keyThen fun _ => .mark
  refine undisputed_of_leads (not_colon_of_startsKey ctx.newlines)
    [(_, some "table"), (_, some "extant"), (_, none)] ?_ (by decide) (by decide) rfl rfl s
  simp only [List.forall_mem_cons]
  exact ⟨⟨Steady.of fun _ => Tandem.qualifiedRequirement (by decide), .wordThenKey⟩,
    ⟨Steady.of fun _ => Tandem.qualifiedRequirement (by decide), .wordThenKey⟩,
    ⟨Steady.of fun _ => Tandem.requirementBody .basic, hbasic⟩, List.forall_mem_nil _⟩

-- Behind the name of a card that is all of a reaction: a chance or nothing, up to the end of the
-- statement.
def ClosesReaction (y : Spot) : Prop :=
  ∃ z, (TakesChance false y z ∨ z = y) ∧ IsOver z

theorem bareReaction_passed (catalyst : Key) (ctx : Context) (s : State)
    (hctx : ctx.newlines = false)
    (h : (Parser.terminated (Parser.bareReaction catalyst)).Accepts ctx s) :
    KeyThen false ClosesReaction s.spot := by
  have hpercentage : Expects false Parser.percentage (TakesChance false) fun _ => True :=
    Expects.percentage
  have hchance : Expects false Parser.chanceOrCertain
      (fun y z => TakesChance false y z ∨ z = y) fun _ => True :=
    hpercentage.attempt.returns fun chance? => by cases chance? <;> exact ⟨_, rfl⟩
  have hbare : Expects false (Parser.bareReaction catalyst)
      (Relation.Comp (TakesKey false) fun y z => TakesChance false y z ∨ z = y) _ :=
    Expects.key.bind fun _ => hchance.returns fun _ => ⟨_, rfl⟩
  obtain ⟨_, z, ⟨y, hkey, hz⟩, hover⟩ := hbare.terminated.of_accepts hctx h
  exact ⟨y, hkey, z, hz, hover⟩

theorem ClosesReaction.not_colon {y : Spot} (h : ClosesReaction y) :
    ¬ Front false (":".toList <+: ·) y := by
  obtain ⟨z, ⟨m, hnumber, -⟩ | rfl, hover⟩ := h
  · refine (Takes.front hnumber).clash fun cs hcs hcolon => ?_
    obtain ⟨rest, rfl⟩ := hcolon
    exact hcs.1 rfl
  · refine hover.clash fun cs hends hcolon => ?_
    exact not_endsStatement (by decide) (head?_of_isPrefix hcolon) hends

theorem ClosesReaction.not_keyThen {y : Spot} (h : ClosesReaction y) :
    ¬ KeyThen false (Front false (":".toList <+: ·)) y := by
  obtain ⟨z, hchance | rfl, hover⟩ := h
  · exact hchance.not_keyThen hover
  · intro hkey
    exact hover.clash (fun _ => not_startsKey_of_endsStatement) hkey.front

-- A name with an amount, behind the given keyword or alone.
def LeadsAmount : Option String → Spot → Prop :=
  Leads false (KeyThen false (Front false (":".toList <+: ·))) (Front false (":".toList <+: ·))

theorem LeadsAmount.clash {l l' : Option String} (hl : ∀ w ∈ l, IsNameLike w)
    (hl' : ∀ w ∈ l', IsNameLike w) (hne : l ≠ l') (x : Spot) (h : LeadsAmount l x) :
    ¬ LeadsAmount l' x :=
  Leads.clash (fun y hy => not_colon_of_startsKey false y hy.front) hl hl' hne h

theorem LeadsAmount.not_closes {l : Option String} (hl : ∀ w ∈ l, IsNameLike w) (x : Spot)
    (h : LeadsAmount l x) : ¬ KeyThen false ClosesReaction x := by
  cases l with
  | none => exact KeyThen.clash (fun _ hy hcloses => hcloses.not_colon hy) h
  | some w =>
      obtain ⟨hw, hk⟩ := hl w rfl
      exact WordThen.clash_key hw hk (fun _ hy hcloses => hcloses.not_keyThen hy) h

theorem reaction_undisputed (catalyst : Key) (ctx : Context) (s : State) :
    Undisputed Parser.terminated (Parser.reaction catalyst) [Parser.spawnReaction catalyst,
      Parser.mutateReaction catalyst, Parser.transformReaction catalyst,
      Parser.bareReaction catalyst] { ctx with newlines := false } s := by
  have hctx : { ctx with newlines := false }.newlines = false := rfl
  have hspawn : Commits false (Parser.spawnReaction catalyst) (LeadsAmount (some "spawn")) :=
    Commits.wordThen (.keyThen fun _ => .mark)
  have hmutate : Commits false (Parser.mutateReaction catalyst) (LeadsAmount (some "mutate")) :=
    Commits.wordThen (.keyThen fun _ => .mark)
  have htransform : Commits false (Parser.transformReaction catalyst) (LeadsAmount none) :=
    Commits.keyThen fun _ => .mark
  have hs : ∀ w ∈ some "spawn", IsNameLike w := by decide
  have hm : ∀ w ∈ some "mutate", IsNameLike w := by decide
  have hn : ∀ w ∈ none, IsNameLike w := by decide
  refine undisputed_of_bids checksBehind_terminated
    [⟨_, LeadsAmount (some "spawn"), LeadsAmount (some "spawn")⟩,
      ⟨_, LeadsAmount (some "mutate"), LeadsAmount (some "mutate")⟩,
      ⟨_, LeadsAmount none, LeadsAmount none⟩,
      ⟨_, fun _ => True, KeyThen false ClosesReaction⟩] ?_ ?_ rfl hctx s
  · simp only [List.forall_mem_cons]
    exact ⟨.of_commits checksBehind_terminated
        (Steady.of fun _ => Tandem.spawnReaction catalyst) hspawn,
      .of_commits checksBehind_terminated
        (Steady.of fun _ => Tandem.mutateReaction catalyst) hmutate,
      .of_commits checksBehind_terminated
        (Steady.of fun _ => Tandem.transformReaction catalyst) htransform,
      ⟨Steady.of fun _ => Tandem.bareReaction catalyst, .any _, bareReaction_passed catalyst⟩,
      List.forall_mem_nil _⟩
  · simp only [List.pairwise_cons, List.forall_mem_cons]
    exact ⟨⟨LeadsAmount.clash hs hm (by decide), LeadsAmount.clash hs hn (by decide),
        LeadsAmount.not_closes hs, List.forall_mem_nil _⟩,
      ⟨LeadsAmount.clash hm hn (by decide), LeadsAmount.not_closes hm, List.forall_mem_nil _⟩,
      ⟨LeadsAmount.not_closes hn, List.forall_mem_nil _⟩, List.forall_mem_nil _, .nil⟩

-- No statement is hidden by the alternatives before it. Among the statements of a block, the
-- reactions of an `xtrigger` and the requirements of a recipe, at most one alternative accepts a
-- text, and the choice between them then gives what this alternative does.
theorem no_statement_is_hidden :
    HasUndisputedBlock Parser.aspect (Parser.located Parser.setClause)
      [Parser.located Parser.induceClause, Parser.located Parser.xtriggerClause] ∧
    HasUndisputedBlock Parser.card (Parser.located Parser.setClause)
      [Parser.located Parser.induceClause, Parser.located Parser.uniqueClause,
        Parser.located Parser.cardSlotClause, Parser.located Parser.xtriggerClause] ∧
    HasUndisputedBlock Parser.deck (Parser.located Parser.defaultEntry)
      [Parser.located (Parser.deckCard false)] ∧
    HasUndisputedBlock Parser.recipe (Parser.located Parser.setClause)
      [Parser.located Parser.requireClause, Parser.located Parser.quantityClause,
        Parser.located Parser.mutateClause, Parser.located (Parser.referenceClause "ending"),
        Parser.located Parser.branchClause, Parser.located Parser.recipeSlotClause] ∧
    HasUndisputedBlock Parser.legacy (Parser.located Parser.setClause)
      [Parser.located (Parser.referenceClause "verb"),
        Parser.located (Parser.referenceClause "ending"),
        Parser.located (Parser.referenceClause "status"),
        Parser.located (Parser.referenceClause "exclude"),
        Parser.located Parser.startingCardClause] ∧
    (∀ (catalyst : Key) (ctx : Context) (s : State),
      Undisputed Parser.terminated (Parser.reaction catalyst) [Parser.spawnReaction catalyst,
        Parser.mutateReaction catalyst, Parser.transformReaction catalyst,
        Parser.bareReaction catalyst] { ctx with newlines := false } s) ∧
    ∀ (ctx : Context) (s : State),
      Undisputed id Parser.requirement [Parser.qualifiedRequirement .table,
        Parser.qualifiedRequirement .extant, Parser.requirementBody .basic] ctx s :=
  ⟨aspect_undisputed, card_undisputed, deck_undisputed, recipe_undisputed, legacy_undisputed,
    reaction_undisputed, requirement_undisputed⟩

def keywordTarget : List Char :=
  "spawn 50%".toList

-- The name of a card may be the keyword of another alternative.
theorem no_statement_is_hidden_keyword_target :
    ∃ v t, Parser.reaction (Key.ofChars ['a'])
        { Context.ofSource "a.crucible" keywordTarget with newlines := false }
        (.ofSource keywordTarget) = .ok v t ∧
      v.target = Key.ofChars "spawn".toList := by
  obtain ⟨-, -, -, -, -, hreactions, -⟩ := no_statement_is_hidden
  obtain ⟨-, v, t, furthest, hbare, hreaction⟩ := hreactions (Key.ofChars ['a'])
    (.ofSource "a.crucible" keywordTarget) (.ofSource keywordTarget) [_, _, _] _ [] rfl ⟨_, _, rfl⟩
  refine ⟨v, _, hreaction, ?_⟩
  cases hbare
  rfl

end CardLore
