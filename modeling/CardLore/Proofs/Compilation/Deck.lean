import CardLore.Proofs.Compilation.WellFormed

namespace CardLore

structure Deck.Agrees (r : Deck) : Prop where
  portal : r.isPortalDeck = true ↔ ∃ e ∈ r.cards, e.2.isSome = true
  default : ∀ card ∈ r.default, card ∈ r.cards.map (·.1)

instance (r : Deck) : Decidable r.Agrees :=
  decidable_of_iff ((r.isPortalDeck = true ↔ ∃ e ∈ r.cards, e.2.isSome = true) ∧
    ∀ card ∈ r.default, card ∈ r.cards.map (·.1))
    ⟨fun h => ⟨h.1, h.2⟩, fun h => ⟨h.portal, h.default⟩⟩

theorem Deck.Valid.agrees {r : Deck} (h : r.Valid) : r.Agrees where
  portal := by rw [h.portal, List.any_eq_true]
  default := h.default

theorem FirstSet.mem_of_ne {α : Type} {default : α} {vs : List α} {v : α}
    (h : FirstSet default vs v) (hne : v ≠ default) : v ∈ vs := by
  induction h with
  | none => exact absurd rfl hne
  | here => exact List.mem_cons_self
  | later _ _ ih => exact List.mem_cons_of_mem _ (ih hne)

theorem FirstSet.eq_true_iff {flags : List Bool} {flag : Bool} (h : FirstSet false flags flag) :
    flag = true ↔ true ∈ flags := by
  induction h with
  | none => simp
  | @here v vs hv => simp [Bool.eq_true_of_not_eq_false hv]
  | later hv _ ih => simp [hv, ih]

theorem Lineage.mem {ds : List Definition} {d : Definition} {chain : List Definition}
    (h : Lineage ds d chain) (hd : d ∈ ds) : ∀ e ∈ chain, e ∈ ds := by
  induction h with
  | root => exact List.forall_mem_singleton.mpr hd
  | child hparent _ ih => exact List.forall_mem_cons.mpr ⟨hd, ih hparent.mem⟩

theorem Lineage.eq_singleton {ds : List Definition} {d : Definition} {chain : List Definition}
    (h : Lineage ds d chain) (hroot : d.inherits = none) : chain = [d] := by
  cases h with
  | root => rfl
  | child hparent _ =>
      obtain ⟨name, hname, _⟩ := hparent
      rw [hroot] at hname
      cases hname

-- A deck whose entries, default and mark come from the decks of a chain.
structure Deck.InheritsFrom (rs : List Deck) (deck : Deck) : Prop where
  cards : FirstSet [] (rs.map (·.cards)) deck.cards
  default : FirstSet none (rs.map (·.default)) deck.default
  portal : FirstSet false (rs.map (·.isPortalDeck)) deck.isPortalDeck

namespace Deck.InheritsFrom

variable {rs : List Deck} {deck : Deck}

theorem ofFilled {chain : List Component} (h : Filled Component.deck inheritedFields chain deck) :
    ∃ rs, chain = rs.map Component.deck ∧ deck.InheritsFrom rs := by
  obtain ⟨rs, hchain, hfields⟩ := h
  simp only [inheritedFields, List.forall_mem_cons] at hfields
  obtain ⟨-, -, hdefault, hcards, hportal, -⟩ := hfields
  exact ⟨rs, hchain, hcards, hdefault, hportal⟩

theorem portal_iff (h : deck.InheritsFrom rs) (hrs : ∀ r ∈ rs, r.Agrees) :
    deck.isPortalDeck = true ↔ ∃ r ∈ rs, ∃ e ∈ r.cards, e.2.isSome = true := by
  rw [h.portal.eq_true_iff, List.mem_map]
  constructor
  · rintro ⟨r, hr, hportal⟩
    exact ⟨r, hr, (hrs r hr).portal.mp hportal⟩
  · rintro ⟨r, hr, hentry⟩
    exact ⟨r, hr, (hrs r hr).portal.mpr hentry⟩

theorem exists_cards (h : deck.InheritsFrom rs) (hne : deck.cards ≠ []) :
    ∃ r ∈ rs, r.cards = deck.cards :=
  List.mem_map.mp (h.cards.mem_of_ne hne)

theorem exists_default (h : deck.InheritsFrom rs) (hrs : ∀ r ∈ rs, r.Agrees) :
    ∀ card ∈ deck.default, ∃ r ∈ rs, r.default = some card ∧ card ∈ r.cards.map (·.1) := by
  intro card hcard
  have hdefault := h.default.mem_of_ne (by rw [hcard]; nofun)
  obtain ⟨r, hr, heq⟩ := List.mem_map.mp hdefault
  exact ⟨r, hr, heq.trans hcard, (hrs r hr).default card (heq.trans hcard)⟩

-- The mark never misses a description of the deck's own entries.
theorem portal_of_entry (h : deck.InheritsFrom rs) (hrs : ∀ r ∈ rs, r.Agrees)
    (hentry : ∃ e ∈ deck.cards, e.2.isSome = true) : deck.isPortalDeck = true := by
  obtain ⟨e, he, hsome⟩ := hentry
  obtain ⟨r, hr, hcards⟩ := h.exists_cards (List.ne_nil_of_mem he)
  exact (h.portal_iff hrs).mpr ⟨r, hr, e, hcards ▸ he, hsome⟩

-- If no other entries are declared along the chain, all three come from one declaration.
theorem agrees (h : deck.InheritsFrom rs) (hrs : ∀ r ∈ rs, r.Agrees)
    (hone : ∀ r ∈ rs, r.cards = [] ∨ r.cards = deck.cards) : deck.Agrees := by
  have hsame : ∀ r ∈ rs, ∀ e ∈ r.cards, e ∈ deck.cards := by
    intro r hr e he
    rcases hone r hr with hnil | heq
    · rw [hnil] at he
      cases he
    · rwa [heq] at he
  refine ⟨⟨fun hportal => ?_, h.portal_of_entry hrs⟩, fun card hcard => ?_⟩
  · obtain ⟨r, hr, e, he, hsome⟩ := (h.portal_iff hrs).mp hportal
    exact ⟨e, hsame r hr e he, hsome⟩
  · obtain ⟨r, hr, -, hmem⟩ := h.exists_default hrs card hcard
    obtain ⟨e, he, rfl⟩ := List.mem_map.mp hmem
    exact List.mem_map_of_mem (hsame r hr e he)

end Deck.InheritsFrom

-- A deck of a corpus has the entries, the default and the mark of the nearest declarations that set
-- them, along its line of parents. Each of these declarations agrees with its own cards. So the
-- mark stands exactly if some declaration has a description, the default is an entry of the
-- declaration that names it, and the deck itself agrees with its cards if no two declarations have
-- different entries; that is so for a deck without parent.
theorem compiled_deck_agrees_along_lineage {c : Compilation} (h : c.IsOutcome) {corpus : Corpus}
    (hcorpus : c.corpus = some corpus) {key : Key} {deck : Deck} (hdeck : (key, deck) ∈ corpus.decks) :
    ∃ d ∈ declared c.trees, ∃ chain rs, d.kind = .deck ∧ d.key = key ∧
      Lineage (declared c.trees) d chain ∧ chain.map (·.component) = rs.map .deck ∧
      (∀ r ∈ rs, r.Agrees) ∧ deck.InheritsFrom rs ∧
      (deck.isPortalDeck = true ↔ ∃ r ∈ rs, ∃ e ∈ r.cards, e.2.isSome = true) ∧
      ((∃ e ∈ deck.cards, e.2.isSome = true) → deck.isPortalDeck = true) ∧
      (∀ card ∈ deck.default, ∃ r ∈ rs, r.default = some card ∧ card ∈ r.cards.map (·.1)) ∧
      ((∀ r ∈ rs, r.cards = [] ∨ r.cards = deck.cards) → deck.Agrees) ∧
      (d.inherits = none → deck.Agrees) := by
  have hmerge := h.mergeTrees_eq hcorpus
  have hmem : (key, Component.deck deck) ∈ corpus.collection .deck :=
    List.mem_map.mpr ⟨_, hdeck, rfl⟩
  obtain ⟨d, hd, hkind, rfl, hresolves⟩ := (mem_collection_iff hmerge .deck _ _).mp hmem
  obtain ⟨chain, hlineage, hfilled⟩ := hresolves.exists_lineage
  obtain ⟨rs, hrs, hfrom⟩ := Deck.InheritsFrom.ofFilled hfilled
  have hagrees : ∀ r ∈ rs, r.Agrees := by
    intro r hr
    have hr : Component.deck r ∈ chain.map (·.component) := hrs ▸ List.mem_map_of_mem hr
    obtain ⟨e, he, heq⟩ := List.mem_map.mp hr
    have hbuilt := wellBuilt_of_mem_declared (h.wellFormed hcorpus) (hlineage.mem hd e he)
    rw [heq] at hbuilt
    exact Deck.Valid.agrees hbuilt
  refine ⟨d, hd, chain, rs, hkind, rfl, hlineage, hrs, hagrees, hfrom, hfrom.portal_iff hagrees,
    hfrom.portal_of_entry hagrees, hfrom.exists_default hagrees, hfrom.agrees hagrees, ?_⟩
  intro hroot
  rw [hlineage.eq_singleton hroot] at hrs
  obtain ⟨r, rfl, -⟩ := List.map_eq_singleton_iff.mp hrs.symm
  have hcards : deck.cards = r.cards := hfrom.cards.unique (FirstSet.singleton [] r.cards)
  exact hfrom.agrees hagrees (List.forall_mem_singleton.mpr (.inr hcards.symm))

-- A portal deck with a default, a child that adds nothing, and a child with an entry of its own.
def portalDeckFiles : List (String × List Char) :=
  [("a.crucible", "deck a \x7b !x \"drawn\" \x7d from a deck b \x7b \x7d".toList),
    ("b.crucible", "from a deck c \x7b y \x7d".toList)]

theorem exists_portalDecks :
    ∃ c corpus, Compilation.ofSources portalDeckFiles = .ok c ∧ c.corpus = some corpus ∧
      (∃ b, (.ofChars ['b'], b) ∈ corpus.decks ∧ b.Agrees) ∧
      ∃ d, (.ofChars ['c'], d) ∈ corpus.decks ∧ ¬ d.Agrees := by
  let shown : List (Key × Bool) :=
    [(.ofChars ['a'], true), (.ofChars ['b'], true), (.ofChars ['c'], false)]
  have hview := exists_corpus_of_view portalDeckFiles
    (fun corpus => corpus.decks.map fun e => (e.1, decide e.2.Agrees)) shown (by decide +kernel)
  obtain ⟨c, corpus, hrun, hcorpus, hdecks⟩ := hview
  have hdeck : ∀ key agrees, (key, agrees) ∈ shown →
      ∃ deck, (key, deck) ∈ corpus.decks ∧ decide deck.Agrees = agrees := by
    intro key agrees hmem
    rw [← hdecks] at hmem
    obtain ⟨⟨_, deck⟩, hdeck, ⟨⟩⟩ := List.mem_map.mp hmem
    exact ⟨deck, hdeck, rfl⟩
  obtain ⟨b, hb, hagrees⟩ := hdeck (.ofChars ['b']) true (by decide)
  obtain ⟨d, hd, hdisagrees⟩ := hdeck (.ofChars ['c']) false (by decide)
  exact ⟨c, corpus, hrun, hcorpus, ⟨b, hb, of_decide_eq_true hagrees⟩,
    d, hd, of_decide_eq_false hdisagrees⟩

theorem compiled_deck_agrees_along_lineage_child :
    ∃ c corpus deck, Compilation.ofSources portalDeckFiles = .ok c ∧ c.corpus = some corpus ∧
      (.ofChars ['b'], deck) ∈ corpus.decks ∧ deck.Agrees ∧
      ∃ rs : List Deck, (∀ r ∈ rs, r.Agrees) ∧ deck.InheritsFrom rs := by
  obtain ⟨c, corpus, hrun, hcorpus, ⟨deck, hdeck, hagrees⟩, -⟩ := exists_portalDecks
  obtain ⟨d, -, chain, rs, -, -, -, -, hall, hfrom, -⟩ :=
    compiled_deck_agrees_along_lineage (.sources hrun) hcorpus hdeck
  exact ⟨c, corpus, deck, hrun, hcorpus, hdeck, hagrees, rs, hall, hfrom⟩

-- The child takes the default and the mark of its parent, and neither fits its own entry.
theorem compiled_child_deck_disagrees :
    ∃ c corpus deck, Compilation.ofSources portalDeckFiles = .ok c ∧ c.corpus = some corpus ∧
      (.ofChars ['c'], deck) ∈ corpus.decks ∧ ¬ deck.Agrees := by
  obtain ⟨c, corpus, hrun, hcorpus, -, deck, hdeck, hdisagrees⟩ := exists_portalDecks
  exact ⟨c, corpus, deck, hrun, hcorpus, hdeck, hdisagrees⟩

end CardLore
