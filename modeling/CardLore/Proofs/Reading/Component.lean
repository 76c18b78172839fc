import CardLore.Declaration.Component
import CardLore.Proofs.Reading.Statement

namespace CardLore

section

variable {α β : Type} {limit : Nat} {newlines : Bool} {ls rest : List Lexeme}

theorem reads_construct {result : Except Refusal α} {x : α} (h : result = .ok x) :
    Reads limit (Parser.construct result) newlines ls ls (· = x) := by
  subst h
  exact .pure rfl

theorem reads_attempt_string (t : Text) :
    Reads limit (Parser.attempt Parser.string) newlines (.text t :: rest) rest (· = some t) :=
  (reads_string t).attempt.mono fun _ ⟨_, ho, hv⟩ => by rw [ho, hv]

-- A word that may be left out in front of something else.
theorem reads_tryKeyword_if {w : String} (hw : w ∈ keywords) (b : Bool)
    (h : startsWithWord w (next newlines rest) = false) :
    Reads limit (Parser.tryKeyword w) newlines (writeIf b (.word w) ++ rest) rest (· = b) := by
  cases b with
  | true => exact reads_tryKeyword w
  | false => exact reads_tryKeyword_false hw h

theorem reads_after?_option {p : Parser β} {t : String} {write : β → List Lexeme} {o : Option β}
    (ht : t ∈ symbols) (h : ∀ x ∈ o, Reads limit p newlines (write x ++ rest) rest (· = x))
    (hrest : startsWithSymbol t (next newlines rest) = false) :
    Reads limit (Parser.after? t p) newlines (o.toList.flatMap (fun x => .symbol t :: write x) ++ rest)
      rest (· = o) := by
  cases o with
  | none => exact reads_after?_none ht hrest
  | some x =>
      rw [Option.toList_some, List.flatMap_singleton]
      exact (h x rfl).after?.mono fun _ ⟨_, ho, hv⟩ => by rw [ho, hv]

-- A body whose statements are read one by one.
theorem reads_body {first : Parser Statement} {others : List (Parser Statement)} {cs : List Clause}
    (h : ∀ c ∈ cs, ∀ tail,
      Reads limit (Parser.choice (Parser.terminated first) (others.map Parser.terminated)) false
        (c.lexemes ++ .lineEnd :: tail) (.lineEnd :: tail) (·.value = c)) :
    Reads limit (Parser.block first others) newlines (writeBlock (cs.map (·.lexemes)) ++ rest) rest
      fun statements => statements.map (·.value) = cs :=
  (reads_block (fun c _ => c.startsLine) h).mono fun _ => map_value_of_forall₂

theorem reads_aspect {r : Aspect} (h : r.Valid (limit + 1)) :
    Reads (limit + 1) Parser.aspect newlines (r.lexemes ++ rest) rest (· = .aspect r) := by
  simp only [Aspect.lexemes, List.append_assoc, List.cons_append]
  refine .bind (reads_tryKeyword_if (by decide) r.hidden rfl) fun hidden hhidden => ?_
  refine .bind (reads_keyword "aspect") fun _ _ => .bind (reads_key r.id) fun id hid => ?_
  refine .bind (reads_string r.label) fun label hlabel => ?_
  refine .bind (reads_string r.description) fun description hdescription => ?_
  refine .bind (reads_after?_option (by decide) (fun target _ => reads_key target) rfl)
    fun decaysTo hdecaysTo => ?_
  refine .bind (reads_body fun c hc => reads_aspect_statement (h.validIn c hc))
    fun statements hstatements => ?_
  subst hhidden hid hlabel hdescription hdecaysTo
  exact .bind (reads_construct (Aspect.build_clauses h hstatements)) fun _ hr =>
    .pure (congrArg Component.aspect hr)

-- A target is no number, so it is not taken for a lifetime.
theorem reads_decay {target : Option Key} {lifetime : Option Int}
    (htarget : ∀ key ∈ target, ¬ key.IsNumber) (hlifetime : ∀ n ∈ lifetime, 0 ≤ n) :
    Reads limit (Parser.after? "->" Parser.cardDecay) newlines
      (decayLexemes target lifetime ++ .symbol "\x7b" :: rest) (.symbol "\x7b" :: rest)
      fun o => o.getD (none, none) = (target, lifetime) := by
  have hcase : ∀ {ls}, Reads limit Parser.cardDecay newlines ls (.symbol "\x7b" :: rest)
      (· = (target, lifetime)) → Reads limit (Parser.after? "->" Parser.cardDecay) newlines
        (.symbol "->" :: ls) (.symbol "\x7b" :: rest)
        fun o => o.getD (none, none) = (target, lifetime) :=
    fun hdecay => hdecay.after?.mono fun _ ⟨_, ho, hv⟩ => by rw [ho, Option.getD_some, hv]
  cases target with
  | none =>
      cases lifetime with
      | none => exact (reads_after?_none (by decide) rfl).mono fun _ ho => by rw [ho]; rfl
      | some n =>
          refine hcase (.bind (reads_unsigned (hlifetime n rfl)).attempt fun _ ⟨v, ho, hv⟩ => ?_)
          subst ho
          exact .pure (by rw [← hv])
  | some key =>
      refine hcase (.bind (mismatches_unsigned_key (htarget key rfl)).attempt fun _ ho => ?_)
      subst ho
      refine .bind (reads_key key).attempt fun _ ⟨_, ho, hkey⟩ => ?_
      subst ho hkey
      cases lifetime with
      | none =>
          refine .bind (mismatches_unsigned_symbol _).attempt fun _ ho => .pure ?_
          rw [ho]
          rfl
      | some n =>
          refine .bind (reads_unsigned (hlifetime n rfl)).attempt fun _ ⟨v, ho, hv⟩ => .pure ?_
          rw [ho, ← hv]
          rfl

theorem reads_card {r : Card} (h : r.Valid (limit + 1)) :
    Reads (limit + 1) Parser.card newlines (r.lexemes ++ rest) rest (· = .card r) := by
  simp only [Card.lexemes, List.append_assoc, List.cons_append]
  refine .bind (reads_tryKeyword_if (by decide) r.hidden rfl) fun hidden hhidden => ?_
  refine .bind (reads_keyword "card") fun _ _ => .bind (reads_key r.id) fun id hid => ?_
  refine .bind (reads_string r.label) fun label hlabel => ?_
  refine .bind (reads_attempt_string r.description) fun description hdescription => ?_
  refine .bind (reads_counts h.aspects).after? fun _ ⟨aspects, hsome, haspects⟩ => ?_
  refine .bind (reads_decay (fun key hkey => (h.decaysTo key hkey).2)
    fun n hn => (h.lifetime n hn).1) fun decay hdecay => ?_
  subst hhidden hid hlabel hdescription hsome
  rw [hdecay]
  refine .bind (reads_body fun c hc => reads_card_statement (h.validIn c hc))
    fun statements hstatements => ?_
  have hbuild := Card.build_clauses h haspects hstatements
  exact .bind (reads_construct hbuild) fun _ hr => .pure (congrArg Component.card hr)

theorem reads_deck {r : Deck} (h : r.Valid) :
    Reads limit Parser.deck newlines (r.lexemes ++ rest) rest (· = .deck r) := by
  refine .bind (reads_keyword "deck") fun _ _ => .bind (reads_key r.id) fun id hid => ?_
  refine .bind (reads_attempt_string r.label) fun label hlabel => ?_
  subst hid hlabel
  refine .bind (reads_attempt_string r.description) fun description hdescription => ?_
  subst hdescription
  refine .bind (reads_block (fun e _ => e.startsLine) fun e _ => reads_deck_entry e)
    fun entries hentries => ?_
  have hbuild := Deck.build_entries h (map_value_of_forall₂ hentries)
  exact .bind (reads_construct hbuild) fun _ hr => .pure (congrArg Component.deck hr)

theorem reads_verb {r : Verb} (h : r.Valid (limit + 1)) :
    Reads (limit + 1) Parser.verb newlines (r.lexemes ++ rest) rest (· = .verb r) := by
  have hslot : ∀ s ∈ r.slot, ∀ tail, Reads (limit + 1) (Parser.free do
      let slot ← Parser.slot
      Parser.symbol ")"
      return slot) newlines (s.lexemes ++ [.symbol ")"] ++ tail) tail (· = s) := by
    intro s hs tail
    rw [List.append_assoc]
    exact .withNewlines <| .bind (reads_slot (h.slot s hs)) fun _ hv =>
      .bind (reads_symbol ")") fun _ _ => .pure hv
  simp only [Verb.lexemes, List.append_assoc, List.cons_append]
  refine .bind (reads_keyword "verb") fun _ _ => .bind (reads_key r.id) fun id hid => ?_
  refine .bind (reads_string r.label) fun label hlabel => ?_
  refine .bind (reads_string r.description) fun description hdescription => ?_
  refine .bind (reads_after?_option (by decide) (fun s hs => hslot s hs _) rfl) fun slot hslot => ?_
  refine .bind (reads_lookingAt (by decide)) fun b hb => ?_
  obtain rfl : b = true := hb
  refine .bind (reads_body fun c hc => reads_verb_statement (h.validIn c hc))
    fun statements hstatements => ?_
  subst hid hlabel hdescription hslot
  exact .bind (reads_construct (Verb.build_clauses h hstatements)) fun _ hr =>
    .pure (congrArg Component.verb hr)

theorem reads_recipe {r : Recipe} (h : r.Valid (limit + 1)) :
    Reads (limit + 1) Parser.recipe newlines (r.lexemes ++ rest) rest (· = .recipe r) := by
  refine .bind (reads_keyword "recipe") fun _ _ => .bind (reads_key r.id) fun id hid => ?_
  refine .bind (reads_key r.verb) fun verb hverb => ?_
  refine .bind (reads_string r.label) fun label hlabel => ?_
  refine .bind (reads_attempt_string r.description) fun description hdescription => ?_
  subst hid hverb hlabel hdescription
  refine .bind (reads_attempt_string r.endDescription) fun endDescription hend => ?_
  subst hend
  refine .bind (reads_body fun c hc => reads_recipe_statement (h.validIn c hc))
    fun statements hstatements => ?_
  exact .bind (reads_construct (Recipe.build_clauses h hstatements)) fun _ hr =>
    .pure (congrArg Component.recipe hr)

theorem reads_legacy {r : Legacy} (h : r.Valid (limit + 1)) :
    Reads (limit + 1) Parser.legacy newlines (r.lexemes ++ rest) rest (· = .legacy r) := by
  refine .bind (reads_keyword "legacy") fun _ _ => .bind (reads_key r.id) fun id hid => ?_
  refine .bind (reads_string r.label) fun label hlabel => ?_
  refine .bind (reads_string r.description) fun description hdescription => ?_
  refine .bind (reads_attempt_string r.startDescription) fun startDescription hstart => ?_
  refine .bind (reads_body fun c hc => reads_legacy_statement (h.validIn c hc))
    fun statements hstatements => ?_
  subst hid hlabel hdescription hstart
  exact .bind (reads_construct (Legacy.build_clauses h hstatements)) fun _ hr =>
    .pure (congrArg Component.legacy hr)

theorem reads_ending {r : Ending} (h : r.Valid (limit + 1)) :
    Reads (limit + 1) Parser.ending newlines (r.lexemes ++ rest) rest (· = .ending r) := by
  refine .bind (reads_keyword "ending") fun _ _ => .bind (reads_key r.id) fun id hid => ?_
  refine .bind (reads_string r.label) fun label hlabel => ?_
  refine .bind (reads_string r.description) fun description hdescription => ?_
  refine .bind (reads_lookingAt (by decide)) fun b hb => ?_
  obtain rfl : b = true := hb
  have hbody : Reads (limit + 1) (Parser.located Parser.literal) newlines
      ((Literal.object r.body).lexemes ++ rest) rest fun v => v.value = .object r.body :=
    Reads.located (P := (· = Literal.object r.body)) (reads_literal (Ending.fits_body h))
  refine .bind hbody fun body hvalue => ?_
  rw [hid, hlabel, hdescription, hvalue]
  exact .bind (reads_construct (Ending.build_body h body.span)) fun _ hr =>
    .pure (congrArg Component.ending hr)

-- What starts with another word is no component of the kind, hidden or not.
theorem mismatches_unhidden {v : String} (hv : v ∈ keywords) {f : Bool → Unit → Parser α}
    (hhidden : startsWithWord "hidden" (next newlines ls) = false)
    (h : startsWithWord v (next newlines ls) = false) :
    Mismatches limit (Parser.tryKeyword "hidden" >>= fun b => Parser.keyword v >>= f b) newlines ls :=
  .after (reads_tryKeyword_false (by decide) hhidden) fun _ _ => .bind (mismatches_keyword hv h)

theorem mismatches_aspect_card (b : Bool) :
    Mismatches limit Parser.aspect newlines (writeIf b (.word "hidden") ++ .word "card" :: rest) := by
  cases b with
  | true =>
      exact .after (reads_tryKeyword "hidden") fun _ _ => mismatches_word (by decide) rfl
  | false => exact mismatches_unhidden (by decide) rfl rfl

-- Only aspects and cards may be hidden.
theorem reads_component_skip {w : String} {P : Component → Prop}
    (hw : ∀ v ∈ ["hidden", "aspect", "card"], (w == v) = false)
    (h : Reads limit (Parser.choice Parser.deck [Parser.verb, Parser.recipe, Parser.legacy, Parser.ending])
      newlines (.word w :: ls) rest P) : Reads limit Parser.component newlines (.word w :: ls) rest P :=
  .choice_next (mismatches_unhidden (by decide) (hw _ (by decide)) (hw _ (by decide))) <|
    .choice_next (mismatches_unhidden (by decide) (hw _ (by decide)) (hw _ (by decide))) h

theorem reads_component {c : Component} (h : c.Valid (limit + 1)) :
    Reads (limit + 1) Parser.component newlines (c.lexemes ++ rest) rest (· = c) := by
  cases c with
  | aspect r => exact .choice_first (reads_aspect h) _
  | card r =>
      refine .choice_next ?_ (.choice_first (reads_card h) _)
      rw [Component.lexemes, Card.lexemes, List.append_assoc]
      exact mismatches_aspect_card r.hidden
  | deck r => exact reads_component_skip (by decide) (.choice_first (reads_deck h) _)
  | verb r =>
      exact reads_component_skip (by decide) <|
        .choice_next (mismatches_word (by decide) rfl) <|
        .choice_first (reads_verb h) _
  | recipe r =>
      exact reads_component_skip (by decide) <|
        .choice_next (mismatches_word (by decide) rfl) <|
        .choice_next (mismatches_word (by decide) rfl) <|
        .choice_first (reads_recipe h) _
  | legacy r =>
      exact reads_component_skip (by decide) <|
        .choice_next (mismatches_word (by decide) rfl) <|
        .choice_next (mismatches_word (by decide) rfl) <|
        .choice_next (mismatches_word (by decide) rfl) <|
        .choice_first (reads_legacy h) _
  | ending r =>
      exact reads_component_skip (by decide) <|
        .choice_next (mismatches_word (by decide) rfl) <|
        .choice_next (mismatches_word (by decide) rfl) <|
        .choice_next (mismatches_word (by decide) rfl) <|
        .choice_next (mismatches_word (by decide) rfl) <|
        .choice_first (reads_ending h) []

-- Without a word there is no component.
theorem mismatches_component (h : ∀ w ∈ keywords, startsWithWord w (next newlines ls) = false) :
    Mismatches limit Parser.component newlines ls := by
  have hkeyword : ∀ {w : String} {f : Unit → Parser Component}, w ∈ keywords →
      Mismatches limit (Parser.keyword w >>= f) newlines ls :=
    fun hw => .bind (mismatches_keyword hw (h _ hw))
  have hunhidden : ∀ {v : String} {f : Bool → Unit → Parser Component}, v ∈ keywords →
      Mismatches limit (Parser.tryKeyword "hidden" >>= fun b => Parser.keyword v >>= f b) newlines ls :=
    fun hv => mismatches_unhidden hv (h _ (by decide)) (h _ hv)
  refine .choice (hunhidden (by decide)) ?_
  simp only [List.forall_mem_cons, List.not_mem_nil, false_imp_iff, implies_true, and_true]
  exact ⟨hunhidden (by decide), hkeyword (by decide), hkeyword (by decide), hkeyword (by decide),
    hkeyword (by decide), hkeyword (by decide)⟩

end

end CardLore
