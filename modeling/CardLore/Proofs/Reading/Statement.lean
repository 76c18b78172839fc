import CardLore.Proofs.Reading.Literal
import CardLore.Proofs.Writing.Writable

namespace CardLore

section

variable {α : Type} {limit : Nat} {newlines : Bool} {ls rest : List Lexeme}

theorem mismatches_word {v w : String} (hv : v ∈ keywords) (hne : (w == v) = false)
    {f : Unit → Parser α} : Mismatches limit (Parser.keyword v >>= f) newlines (.word w :: rest) :=
  .bind (mismatches_keyword hv hne)

theorem mismatches_keyword_key {w : String} (hw : w ∈ keywords) {k : Key} {f : Unit → Parser α}
    (h : Mismatches limit (f ()) newlines rest) :
    Mismatches limit (Parser.keyword w >>= f) newlines (.key k :: rest) := by
  rcases keyword_at_key hw k with hread | hmiss
  · exact .after hread fun _ _ => h
  · exact .bind hmiss

theorem reads_amountOrOne {n : Int} (hn : 0 ≤ n) :
    Reads limit Parser.amountOrOne newlines (.symbol ":" :: .number n :: rest) rest (· = n) := by
  refine .bind (reads_trySymbol ":") fun b hb => ?_
  subst hb
  exact .bind (reads_unsigned hn) fun _ hv => .pure hv

theorem reads_elementAmount {e : Key × Int} (h : 0 ≤ e.2) :
    Reads limit Parser.elementAmount newlines (elementLexemes e ++ rest) rest (· = e) := by
  refine .bind (reads_key e.1) fun _ hkey => .bind (reads_amountOrOne h) fun _ hamount => .pure ?_
  rw [hkey, hamount]

theorem reads_counts {entries : List (Key × Int)} (h : ValidCounts entries) :
    Reads limit (Parser.delimited (Parser.located Parser.elementAmount) ")") newlines
      (commaSeparated ")" (entries.map elementLexemes) ++ rest) rest
      fun located => located.map (·.value) = entries := by
  have hentries : ∀ e ∈ entries, ∀ tail, Reads limit (Parser.located Parser.elementAmount) true
      (elementLexemes e ++ tail) tail (·.value = e) :=
    fun e he _ => Reads.located (P := (· = e)) (reads_elementAmount (h.count e he).1)
  exact (reads_delimited (by decide) (by decide) (fun _ _ _ => rfl) hentries).mono fun _ =>
    map_value_of_forall₂

theorem reads_chanceOrCertain (p : Probability) :
    Reads limit Parser.chanceOrCertain newlines (.percent p :: rest) rest (· = p) := by
  refine .bind (reads_tryPercentage p) fun o ho => ?_
  subst ho
  exact .pure rfl

theorem reads_operation {o : Operation} (h : o.isSet = true → 0 ≤ o.amount) :
    Reads limit Parser.operation newlines (o.lexemes ++ rest) rest (· = o) := by
  obtain ⟨n, isSet⟩ := o
  cases isSet with
  | true =>
      refine .bind (reads_trySymbol "=") fun b hb => ?_
      subst hb
      exact .bind (reads_unsigned (h rfl)) fun _ hv => .pure (congrArg (Operation.mk · true) hv)
  | false =>
      refine .bind (reads_trySymbol_false (by decide) rfl) fun b hb => ?_
      subst hb
      exact .bind (reads_signed n) fun _ hv => .pure (congrArg (Operation.mk · false) hv)

theorem reads_setClause {key : Key} {value : Literal} (h : value.Fits limit) :
    Reads limit Parser.setClause newlines ((Clause.set key value).lexemes ++ rest) rest
      (· = .set key value) := by
  refine .bind (reads_keyword "set") fun _ _ => .bind (reads_key key) fun _ hkey => ?_
  refine .bind (reads_symbol "=") fun _ _ => .bind (reads_literal h) fun _ hvalue => .pure ?_
  rw [hkey, hvalue]

theorem reads_induceClause (recipe : Key) (chance : Probability) :
    Reads limit Parser.induceClause newlines ((Clause.induce recipe chance).lexemes ++ rest) rest
      (· = .induce recipe chance) := by
  refine .bind (reads_keyword "induce") fun _ _ => .bind (reads_key recipe) fun _ hrecipe => ?_
  refine .bind (reads_percentage chance) fun _ hchance => .pure ?_
  rw [hrecipe, hchance]

theorem reads_reaction {x : Xtrigger} (h : x.reaction ≠ .mutate → 0 ≤ x.amount) :
    Reads limit (Parser.reaction x.catalyst) newlines
      (x.reaction.lexemes ++
        .key x.target :: .symbol ":" :: .number x.amount :: .percent x.chance :: rest)
      rest (· = x) := by
  obtain ⟨reaction, catalyst, target, amount, chance⟩ := x
  cases reaction with
  | spawn =>
      refine .choice_first (.bind (reads_keyword "spawn") fun _ _ => ?_) _
      refine .bind (reads_key target) fun _ htarget => .bind (reads_symbol ":") fun _ _ => ?_
      refine .bind (reads_unsigned (h nofun)) fun _ hamount => ?_
      refine .bind (reads_chanceOrCertain chance) fun _ hchance => .pure ?_
      rw [htarget, hamount, hchance]
  | mutate =>
      refine .choice_next (mismatches_word (by decide) rfl) (.choice_first ?_ _)
      refine .bind (reads_keyword "mutate") fun _ _ => ?_
      refine .bind (reads_key target) fun _ htarget => .bind (reads_symbol ":") fun _ _ => ?_
      refine .bind (reads_signed amount) fun _ hamount => ?_
      refine .bind (reads_chanceOrCertain chance) fun _ hchance => .pure ?_
      rw [htarget, hamount, hchance]
  | transform =>
      have hkey {f : Key → Parser Xtrigger} : Mismatches limit (Parser.key >>= f) newlines
          (.symbol ":" :: .number amount :: .percent chance :: rest) :=
        .bind (mismatches_key rfl)
      refine .choice_next (mismatches_keyword_key (by decide) hkey) ?_
      refine .choice_next (mismatches_keyword_key (by decide) hkey) (.choice_first ?_ _)
      refine .bind (reads_key target) fun _ htarget => .bind (reads_symbol ":") fun _ _ => ?_
      refine .bind (reads_unsigned (h nofun)) fun _ hamount => ?_
      refine .bind (reads_chanceOrCertain chance) fun _ hchance => .pure ?_
      rw [htarget, hamount, hchance]

theorem reads_xtriggerClause {x : Xtrigger} (h : x.Valid) :
    Reads limit Parser.xtriggerClause newlines ((Clause.xtrigger x).lexemes ++ rest) rest
      (· = .xtrigger x) := by
  rw [Clause.lexemes, Xtrigger.lexemes, List.cons_append, List.cons_append, List.cons_append,
    List.append_assoc]
  refine .bind (reads_keyword "xtrigger") fun _ _ => .bind (reads_key x.catalyst) fun _ hcatalyst => ?_
  subst hcatalyst
  refine .bind (reads_symbol "->") fun _ _ => .bind (reads_reaction h.nonneg) fun _ hx => .pure ?_
  rw [hx]

theorem reads_symbolOrKeyword {t w : String} (ht : t ∈ symbols) :
    Reads limit (Parser.symbolOrKeyword t w) newlines (.word w :: rest) rest (· = true) := by
  refine .bind (reads_trySymbol_false ht rfl) fun b hb => ?_
  subst hb
  exact reads_tryKeyword w

theorem reads_symbolOrKeyword_false {t v w : String} (ht : t ∈ symbols) (hw : w ∈ keywords)
    (hne : (v == w) = false) :
    Reads limit (Parser.symbolOrKeyword t w) newlines (.word v :: rest) (.word v :: rest) (· = false) := by
  refine .bind (reads_trySymbol_false ht rfl) fun b hb => ?_
  subst hb
  exact reads_tryKeyword_false hw hne

theorem reads_modifiers_nil (bound : Nat) :
    Reads limit (Parser.modifiersUpTo (bound + 1)) newlines (.word "slot" :: rest) (.word "slot" :: rest)
      (·.map (·.1) = []) := by
  refine .bind reads_tokenStart fun pos _ => ?_
  refine .bind (reads_symbolOrKeyword_false (by decide) (by decide) rfl) fun b hb => ?_
  subst hb
  refine .bind (reads_symbolOrKeyword_false (by decide) (by decide) rfl) fun b hb => ?_
  subst hb
  exact .pure rfl

theorem reads_modifiers_consume {bound : Nat} {ms : List Parser.SlotModifier}
    (h : Reads limit (Parser.modifiersUpTo bound) newlines ls rest (·.map (·.1) = ms)) :
    Reads limit (Parser.modifiersUpTo (bound + 1)) newlines (.word "consume" :: ls) rest
      (·.map (·.1) = .consume :: ms) := by
  refine .bind reads_tokenStart fun pos _ => ?_
  refine .bind (reads_symbolOrKeyword (by decide)) fun b hb => ?_
  subst hb
  exact .bind h fun _ hms => .pure (congrArg (Parser.SlotModifier.consume :: ·) hms)

theorem reads_modifiers_greedy {bound : Nat} {ms : List Parser.SlotModifier}
    (h : Reads limit (Parser.modifiersUpTo bound) newlines ls rest (·.map (·.1) = ms)) :
    Reads limit (Parser.modifiersUpTo (bound + 1)) newlines (.word "greedy" :: ls) rest
      (·.map (·.1) = .greedy :: ms) := by
  refine .bind reads_tokenStart fun pos _ => ?_
  refine .bind (reads_symbolOrKeyword_false (by decide) (by decide) rfl) fun b hb => ?_
  subst hb
  refine .bind (reads_symbolOrKeyword (by decide)) fun b hb => ?_
  subst hb
  exact .bind h fun _ hms => .pure (congrArg (Parser.SlotModifier.greedy :: ·) hms)

-- The modifiers of a slot, in the order in which they are written.
def slotModifiers (consumes greedy : Bool) : List Parser.SlotModifier :=
  (if consumes then [.consume] else []) ++ (if greedy then [.greedy] else [])

theorem reads_modifiersUpTo (consumes greedy : Bool) (bound : Nat) :
    Reads limit (Parser.modifiersUpTo (bound + 3)) newlines
      (writeIf consumes (.word "consume") ++ (writeIf greedy (.word "greedy") ++
        .word "slot" :: rest))
      (.word "slot" :: rest) (·.map (·.1) = slotModifiers consumes greedy) := by
  cases consumes with
  | true =>
      cases greedy with
      | true => exact reads_modifiers_consume (reads_modifiers_greedy (reads_modifiers_nil bound))
      | false => exact reads_modifiers_consume (reads_modifiers_nil (bound + 1))
  | false =>
      cases greedy with
      | true => exact reads_modifiers_greedy (reads_modifiers_nil (bound + 1))
      | false => exact reads_modifiers_nil (bound + 2)

theorem reads_modifiers (consumes greedy : Bool) (l : Lexeme) :
    Reads limit (fun ctx s => Parser.modifiersUpTo (s.rest.length + 1) ctx s) newlines
      (writeIf consumes (.word "consume") ++ (writeIf greedy (.word "greedy") ++
        .word "slot" :: l :: rest))
      (.word "slot" :: l :: rest) (·.map (·.1) = slotModifiers consumes greedy) := by
  intro ctx s hctx hs
  have hlength := hs.length_le
  simp only [List.length_append, List.length_cons] at hlength
  obtain ⟨bound, hbound⟩ : ∃ bound, s.rest.length + 1 = bound + 3 := ⟨s.rest.length - 2, by omega⟩
  have hread := reads_modifiersUpTo consumes greedy bound ctx s hctx hs
  rwa [← hbound] at hread

-- No modifier is written twice.
theorem firstRepeated?_slotModifiers {consumes greedy : Bool}
    {ms : List (Parser.SlotModifier × Nat)} (h : ms.map (·.1) = slotModifiers consumes greedy) :
    Parser.firstRepeated? [] ms = none ∧ ms.any (·.1 = .consume) = consumes ∧
      ms.any (·.1 = .greedy) = greedy := by
  have hany (m : Parser.SlotModifier) :
      ms.any (·.1 = m) = (slotModifiers consumes greedy).any (· = m) := by
    rw [← h, List.any_map]
    rfl
  have hrepeated : ∀ (ms : List (Parser.SlotModifier × Nat)) seen, (seen ++ ms.map (·.1)).Nodup →
      Parser.firstRepeated? seen ms = none := by
    intro ms
    induction ms with
    | nil => exact fun _ _ => rfl
    | cons m ms ih =>
        obtain ⟨m, pos⟩ := m
        intro seen hnodup
        rw [Parser.firstRepeated?, if_neg (not_mem_of_nodup_append hnodup)]
        exact ih _ (List.perm_middle.nodup_iff.mp hnodup)
  refine ⟨hrepeated ms [] ?_, ?_, ?_⟩
  · rw [h]
    cases consumes <;> cases greedy <;> decide
  · rw [hany]
    cases consumes <;> cases greedy <;> rfl
  · rw [hany]
    cases consumes <;> cases greedy <;> rfl

theorem reads_slotFilter {f : SlotFilter} (h : 0 ≤ f.amount) :
    Reads limit Parser.slotFilter newlines (f.lexemes ++ rest) rest (· = f) := by
  obtain ⟨kind, element, amount⟩ := f
  cases kind with
  | forbid =>
      refine .bind (reads_trySymbol "!") fun b hb => ?_
      subst hb
      refine .bind (reads_key element) fun _ hkey => ?_
      refine .bind (reads_amountOrOne h) fun _ hamount => .pure ?_
      rw [hkey, hamount]
      rfl
  | accept =>
      refine .bind (reads_trySymbol_false (by decide) rfl) fun b hb => ?_
      subst hb
      refine .bind (reads_key element) fun _ hkey => ?_
      refine .bind (reads_amountOrOne h) fun _ hamount => .pure ?_
      rw [hkey, hamount]
      rfl

theorem reads_slot {s : Slot} (h : s.Valid) :
    Reads limit Parser.slot newlines (s.lexemes ++ rest) rest (· = s) := by
  have hfilters : ∀ f ∈ s.requirements, ∀ tail,
      Reads limit Parser.slotFilter true (f.lexemes ++ tail) tail (· = f) :=
    fun f hf _ => reads_slotFilter (h.requirements f hf).amount.1
  have hhead : ∀ f ∈ s.requirements, ∀ tail,
      startsWithSymbol ")" (next true (f.lexemes ++ tail)) = false := by
    rintro ⟨kind, _, _⟩ _ _
    cases kind <;> rfl
  rw [Slot.lexemes, List.append_assoc, List.append_assoc]
  refine .bind (reads_modifiers s.consumes s.greedy _) fun ms hms => ?_
  obtain ⟨hrepeated, hconsume, hgreedy⟩ := firstRepeated?_slotModifiers hms
  refine .bind (reads_keyword "slot") fun _ _ => ?_
  rw [hrepeated]
  refine .bind (reads_key s.id) fun _ hid => .bind (reads_string s.label) fun _ hlabel => ?_
  refine .bind (reads_string s.description) fun _ hdescription => ?_
  refine .bind (Reads.after? (reads_delimited (by decide) (by decide) hhead hfilters)) ?_
  rintro _ ⟨fs, rfl, hfs⟩
  refine .pure ?_
  rw [hid, hlabel, hdescription, eq_of_forall₂ hfs]
  dsimp only
  rw [hconsume, hgreedy, Option.getD_some]

theorem reads_recipeSlotClause {s : Slot} (h : s.Valid) :
    Reads limit Parser.recipeSlotClause newlines ((Clause.slot none s).lexemes ++ rest) rest
      (· = .slot none s) :=
  .bind (reads_slot h) fun _ hs => .pure (congrArg (Clause.slot none) hs)

theorem reads_cardSlotClause {s : Slot} (h : s.Valid) (verb : Key) :
    Reads limit Parser.cardSlotClause newlines ((Clause.slot (some verb) s).lexemes ++ rest) rest
      (· = .slot (some verb) s) := by
  refine .bind (reads_key verb) fun _ hverb => .bind (reads_symbol "->") fun _ _ => ?_
  refine .bind (reads_slot h) fun _ hs => .pure ?_
  rw [hverb, hs]

-- Without a group, the statement ends behind its word.
theorem reads_uniqueClause (group : Option Key) :
    Reads limit Parser.uniqueClause false ((Clause.unique group).lexemes ++ .lineEnd :: rest)
      (.lineEnd :: rest) (· = .unique group) := by
  refine .bind (reads_keyword "unique") fun _ _ => ?_
  cases group with
  | none => exact .bind (mismatches_key rfl).attempt fun _ ho => .pure (congrArg Clause.unique ho)
  | some group =>
      refine .bind (reads_key group).attempt ?_
      rintro _ ⟨_, rfl, hgroup⟩
      exact .pure (congrArg (fun group => Clause.unique (some group)) hgroup)

theorem reads_deckCard (card : Key) (description : Option Text) (isDefault : Bool) :
    Reads limit (Parser.deckCard isDefault) false
      (.key card :: description.toList.map .text ++ .lineEnd :: rest) (.lineEnd :: rest)
      (· = ⟨card, description, isDefault⟩) := by
  refine .bind (reads_key card) fun _ hcard => ?_
  subst hcard
  cases description with
  | none =>
      refine .bind (mismatches_string rfl).attempt fun _ ho => ?_
      subst ho
      exact .pure rfl
  | some description =>
      refine .bind (reads_string description).attempt ?_
      rintro _ ⟨_, rfl, rfl⟩
      exact .pure rfl

theorem reads_defaultEntry (card : Key) (description : Option Text) :
    Reads limit Parser.defaultEntry false
      ((⟨card, description, true⟩ : DeckEntry).lexemes ++ .lineEnd :: rest) (.lineEnd :: rest)
      (· = ⟨card, description, true⟩) := by
  refine .bind (reads_trySymbol_false (by decide) rfl) fun b hb => ?_
  subst hb
  exact .bind (reads_keyword "default") fun _ _ => reads_deckCard card description true

theorem reads_requirementBody {kind : RequirementKind} {element : Key} {amount : Threshold}
    (h : amount.Valid) :
    Reads limit (Parser.requirementBody kind) newlines
      (.key element :: .symbol ":" :: amount.lexeme :: rest) rest (· = ⟨kind, element, amount⟩) := by
  refine .bind (reads_key element) fun _ helement => .bind (reads_symbol ":") fun _ _ => ?_
  subst helement
  cases amount with
  | number n =>
      refine .bind (reads_signed n).attempt ?_
      rintro _ ⟨_, rfl, rfl⟩
      exact .pure rfl
  | element key =>
      refine .bind (mismatches_signed_key h.2).attempt fun _ ho => ?_
      subst ho
      refine .bind (reads_key key) fun _ hkey => ?_
      subst hkey
      exact .pure rfl

theorem reads_requirement {r : Requirement} (h : r.Valid) :
    Reads limit Parser.requirement newlines (r.lexemes ++ rest) rest (· = r) := by
  obtain ⟨kind, element, amount⟩ := r
  have hbody : ∀ kind, Reads limit (Parser.requirementBody kind) newlines
      (.key element :: .symbol ":" :: amount.lexeme :: rest) rest (· = ⟨kind, element, amount⟩) :=
    fun _ => reads_requirementBody h.amount
  cases kind with
  | table => exact .choice_first (.bind (reads_keyword "table") fun _ _ => hbody .table) _
  | extant =>
      exact .choice_next (mismatches_word (v := "table") (by decide) rfl)
        (.choice_first (.bind (reads_keyword "extant") fun _ _ => hbody .extant) _)
  | basic =>
      have hmiss : ∀ kind, Mismatches limit (Parser.requirementBody kind) newlines
          (.symbol ":" :: amount.lexeme :: rest) := fun _ => .bind (mismatches_key rfl)
      exact .choice_next (mismatches_keyword_key (w := "table") (by decide) (hmiss _))
        (.choice_next (mismatches_keyword_key (w := "extant") (by decide) (hmiss _))
          (.choice_first (hbody .basic) []))

theorem reads_requireClause {r : Requirement} (h : r.Valid) :
    Reads limit Parser.requireClause newlines ((Clause.require r).lexemes ++ rest) rest (· = .require r) :=
  .bind (reads_keyword "require") fun _ _ => .bind (reads_requirement h) fun _ hr =>
    .pure (congrArg Clause.require hr)

theorem Quantity.mem_all (q : Quantity) : q ∈ all := by
  cases q <;> decide

theorem reads_quantityWord (q : Quantity) :
    Reads limit Parser.quantityWord newlines (.word q.keyword :: rest) rest (· = q) := by
  refine Reads.choice_map (f := fun q : Quantity => do Parser.keyword q.keyword; return q) []
    q.mem_all (.bind (reads_keyword _) fun _ _ => .pure rfl) fun other _ hne => ?_
  refine mismatches_word other.keyword_mem ?_
  rw [beq_eq_false_iff_ne]
  intro heq
  have hsame := congrArg Quantity.ofKeyword? heq
  rw [q.ofKeyword?_keyword, other.ofKeyword?_keyword] at hsame
  exact hne (Option.some.inj hsame).symm

theorem reads_quantityClause {q : Quantity} {amount : Amount} (h : amount.Valid q) (element : Key) :
    Reads limit Parser.quantityClause newlines
      ((Clause.quantity q.keyword element amount).lexemes ++ rest) rest
      (· = .quantity q.keyword element amount) := by
  refine .bind (reads_quantityWord q) fun _ hq => ?_
  subst hq
  refine .bind (reads_key element) fun _ helement => .bind (reads_symbol ":") fun _ _ => ?_
  subst helement
  cases amount with
  | count n =>
      obtain ⟨hcount, hn⟩ := h
      rw [hcount]
      exact .bind (reads_unsigned hn.1) fun _ hv =>
        .pure (congrArg (fun n => Clause.quantity _ _ (.count n)) hv)
  | change operation =>
      obtain ⟨hchange, hoperation⟩ := h
      rw [hchange]
      exact .bind (reads_operation hoperation.nonneg) fun _ hv =>
        .pure (congrArg (fun o => Clause.quantity _ _ (.change o)) hv)

theorem reads_mutateClause {m : Mutation} (h : m.Valid) :
    Reads limit Parser.mutateClause newlines ((Clause.mutate m).lexemes ++ rest) rest (· = .mutate m) := by
  refine .bind (reads_keyword "mutate") fun _ _ => .bind (reads_key m.id) fun _ hid => ?_
  refine .bind (reads_key m.aspect) fun _ haspect => .bind (reads_symbol ":") fun _ _ => ?_
  refine .bind (reads_operation h.operation.nonneg) fun _ hoperation => .pure ?_
  rw [hid, haspect, hoperation]

theorem reads_referenceClause (word : String) (target : Key) :
    Reads limit (Parser.referenceClause word) newlines ((Clause.reference word target).lexemes ++ rest)
      rest (· = .reference word target) :=
  .bind (reads_keyword word) fun _ _ => .bind (reads_key target) fun _ htarget =>
    .pure (congrArg (Clause.reference word) htarget)

theorem reads_branchKind (kind : BranchKind) :
    Reads limit Parser.branchKind newlines (kind.lexeme :: rest) rest (· = kind) := by
  cases kind with
  | link =>
      refine .bind (reads_tryKeyword "link") fun b hb => ?_
      subst hb
      exact .pure rfl
  | goto =>
      refine .bind (reads_tryKeyword_false (by decide) rfl) fun b hb => ?_
      subst hb
      exact .bind (reads_keyword "goto") fun _ _ => .pure rfl

theorem build_expulsion {e : Expulsion} (h : ValidCounts e.elements)
    {located : List (Located (Key × Int))} (hs : located.map (·.value) = e.elements) :
    Expulsion.build located = .ok e := by
  have hfold := foldlM_fresh (fun entries e hfresh =>
    addKeyed_fresh hfresh "expelled element" e.value.2 e.span) h.nodup hs
  rw [Expulsion.build, hfold]
  rfl

-- A spawn and an expulsion exclude each other; without either, the statement ends here.
theorem reads_gotoTail {spawn : Bool} {expel : Option Expulsion}
    (halone : spawn = true → expel = none) (hexpel : ∀ e ∈ expel, ValidCounts e.elements) :
    Reads limit Parser.gotoTail false
      (writeIf spawn (.word "spawn") ++ (expel.toList.flatMap (·.lexemes) ++ .lineEnd :: rest))
      (.lineEnd :: rest) (· = (spawn, expel)) := by
  cases spawn with
  | true =>
      obtain rfl := halone rfl
      refine .bind (reads_tryKeyword "spawn") fun b hb => ?_
      subst hb
      exact .pure rfl
  | false =>
      cases expel with
      | none =>
          refine .bind (reads_tryKeyword_false (by decide) rfl) fun b hb => ?_
          subst hb
          refine .bind (reads_tryKeyword_false (by decide) rfl) fun b hb => ?_
          subst hb
          exact .pure rfl
      | some e =>
          have he := hexpel e rfl
          have hone : (some e).toList.flatMap (·.lexemes) = e.lexemes := List.append_nil _
          rw [hone]
          refine .bind (reads_tryKeyword_false (by decide) rfl) fun b hb => ?_
          subst hb
          refine .bind (reads_tryKeyword "expel") fun b hb => ?_
          subst hb
          refine .bind (reads_symbol "(") fun _ _ => .bind (reads_counts he) fun located hs => ?_
          rw [build_expulsion he hs]
          exact .bind (.pure rfl) fun _ hv => .pure (congrArg (fun e => (false, some e)) hv.symm)

theorem reads_chance (chance : Option Probability) :
    Reads limit Parser.tryPercentage newlines (chance.toList.map .percent ++ .symbol "(" :: rest)
      (.symbol "(" :: rest) (· = chance) := by
  cases chance with
  | none => exact (mismatches_percentage_symbol "(").attempt
  | some chance => exact reads_tryPercentage chance

theorem reads_branchClause {b : Branch} (h : b.Valid) :
    Reads limit Parser.branchClause false ((Clause.branch b).lexemes ++ .lineEnd :: rest)
      (.lineEnd :: rest) (· = .branch b) := by
  obtain ⟨kind, target, chance, requirements, spawn, expel⟩ := b
  have hhead : ∀ r ∈ requirements, ∀ tail,
      startsWithSymbol ")" (next true (r.lexemes ++ tail)) = false := by
    rintro ⟨kind, _, _⟩ _ _
    cases kind <;> rfl
  rw [Clause.lexemes, Branch.lexemes, List.cons_append, List.cons_append, List.append_assoc,
    List.cons_append, List.append_assoc, List.append_assoc]
  refine .bind (reads_branchKind kind) fun kind' hkind => ?_
  refine .bind (reads_key target) fun _ htarget => .bind (reads_chance chance) fun _ hchance => ?_
  refine .bind (Reads.after? (reads_delimited (by decide) (by decide) hhead
    fun r hr _ => reads_requirement (h.requirements r hr))) ?_
  rintro _ ⟨rs, rfl, hrs⟩
  obtain rfl := eq_of_forall₂ hrs
  subst hkind htarget hchance
  cases kind' with
  | goto =>
      refine .bind (reads_gotoTail h.alone h.expel) fun _ htail => ?_
      subst htail
      exact .pure rfl
  | link =>
      obtain ⟨rfl, rfl⟩ := h.plain rfl
      exact .pure rfl

theorem reads_startingCardClause {card : Key} {amount : Int} (h : 0 ≤ amount) :
    Reads limit Parser.startingCardClause newlines ((Clause.startingCard card amount).lexemes ++ rest)
      rest (· = .startingCard card amount) := by
  refine .bind (reads_keyword "card") fun _ _ => .bind (reads_key card) fun _ hcard => ?_
  refine .bind (reads_amountOrOne h) fun _ hamount => .pure ?_
  rw [hcard, hamount]

theorem Reads.statement {p : Parser α} {x : α} (h : Reads limit p false ls (.lineEnd :: rest) (· = x)) :
    Reads limit (Parser.terminated (Parser.located p)) false ls (.lineEnd :: rest) (·.value = x) := by
  refine Reads.terminated (Reads.located (P := (· = x)) ?_)
  rwa [next_false]

theorem Mismatches.statement {p : Parser α} (h : Mismatches limit p false ls) :
    Mismatches limit (Parser.terminated (Parser.located p)) false ls := by
  refine Mismatches.bind (Mismatches.located ?_)
  rwa [next_false]

-- Another statement's word stands in front.
theorem Reads.other {v w : String} (hv : v ∈ keywords) (hne : (w == v) = false)
    {f : Unit → Parser α} {p : Parser (Located α)} {ps : List (Parser (Located α))}
    {P : Located α → Prop} (h : Reads limit (Parser.choice p ps) false (.word w :: ls) rest P) :
    Reads limit (Parser.choice (Parser.terminated (Parser.located (Parser.keyword v >>= f))) (p :: ps))
      false (.word w :: ls) rest P :=
  .choice_next (.statement (mismatches_word hv hne)) h

-- Some statement of a body, tried after assignments, takes the whole line.
def TakesLine (limit : Nat) (c : Clause) (others : List (Parser Clause)) : Prop :=
  ∀ rest, Reads limit (Parser.choice (Parser.terminated (Parser.located Parser.setClause))
    ((others.map Parser.located).map Parser.terminated)) false (c.lexemes ++ .lineEnd :: rest)
    (.lineEnd :: rest) (·.value = c)

theorem reads_aspect_statement {c : Clause} (h : c.ValidIn limit .aspect) :
    TakesLine limit c [Parser.induceClause, Parser.xtriggerClause] := by
  intro rest
  obtain ⟨hc, hkind⟩ := h
  cases c with
  | set key value => exact .choice_first (.statement (reads_setClause hc.2)) _
  | induce recipe chance =>
      exact .other (by decide) rfl (.choice_first (.statement (reads_induceClause recipe chance)) _)
  | xtrigger x =>
      exact .other (by decide) rfl <| .other (by decide) rfl <|
        .choice_first (.statement (reads_xtriggerClause hc)) []
  | _ => cases hkind

theorem reads_verb_statement {c : Clause} (h : c.ValidIn limit .verb) : TakesLine limit c [] := by
  intro rest
  obtain ⟨hc, hkind⟩ := h
  cases c with
  | set key value => exact .statement (reads_setClause hc.2)
  | _ => cases hkind

-- The verb of a slot may look like the word of another statement, but an arrow follows it.
theorem reads_card_slot {verb : Key} {s : Slot} (h : s.Valid) :
    TakesLine limit (.slot (some verb) s) [Parser.induceClause, Parser.uniqueClause,
      Parser.cardSlotClause, Parser.xtriggerClause] := by
  intro rest
  have hkey {f : Key → Parser Clause} : Mismatches limit (Parser.key >>= f) false
      (.symbol "->" :: (s.lexemes ++ .lineEnd :: rest)) :=
    .bind (mismatches_key rfl)
  have hunique : Mismatches limit (Parser.terminated (Parser.located Parser.uniqueClause)) false
      (.key verb :: .symbol "->" :: (s.lexemes ++ .lineEnd :: rest)) := by
    rcases keyword_at_key (w := "unique") (by decide) verb with hread | hmiss
    · have hclause : Reads limit Parser.uniqueClause false
          (.key verb :: .symbol "->" :: (s.lexemes ++ .lineEnd :: rest))
          (.symbol "->" :: (s.lexemes ++ .lineEnd :: rest)) fun _ => True :=
        .bind hread fun _ _ => .bind (mismatches_key rfl).attempt fun _ _ => .pure trivial
      exact .terminated_after (Reads.located hclause) rfl
    · exact .statement (.bind hmiss)
  exact .choice_next (.statement (mismatches_keyword_key (by decide) hkey))
    (.choice_next (.statement (mismatches_keyword_key (by decide) hkey))
      (.choice_next hunique (.choice_first (.statement (reads_cardSlotClause h verb)) _)))

theorem reads_card_statement {c : Clause} (h : c.ValidIn limit .card) :
    TakesLine limit c [Parser.induceClause, Parser.uniqueClause, Parser.cardSlotClause,
      Parser.xtriggerClause] := by
  intro rest
  obtain ⟨hc, hkind⟩ := h
  cases c with
  | set key value => exact .choice_first (.statement (reads_setClause hc.2)) _
  | induce recipe chance =>
      exact .other (by decide) rfl (.choice_first (.statement (reads_induceClause recipe chance)) _)
  | unique group =>
      exact .other (by decide) rfl <| .other (by decide) rfl <|
        .choice_first (.statement (reads_uniqueClause group)) _
  | slot verb s =>
      cases verb with
      | none => cases hkind
      | some verb => exact reads_card_slot hc.2 rest
  | xtrigger x =>
      -- the word is read as a verb, but no arrow follows it
      have hslot : Mismatches limit (Parser.terminated (Parser.located Parser.cardSlotClause)) false
          ((Clause.xtrigger x).lexemes ++ .lineEnd :: rest) :=
        .statement (.after (reads_key_word "xtrigger") fun _ _ =>
          .bind (mismatches_symbol (by decide) rfl))
      exact .other (by decide) rfl <| .other (by decide) rfl <| .other (by decide) rfl <|
        .choice_next hslot (.choice_first (.statement (reads_xtriggerClause hc)) [])
  | _ => cases hkind

theorem reads_deck_entry (e : DeckEntry) (rest : List Lexeme) :
    Reads limit (Parser.choice (Parser.terminated (Parser.located Parser.defaultEntry))
      ([Parser.located (Parser.deckCard false)].map Parser.terminated)) false
      (e.lexemes ++ .lineEnd :: rest) (.lineEnd :: rest) (·.value = e) := by
  obtain ⟨card, description, isDefault⟩ := e
  cases isDefault with
  | true => exact .choice_first (.statement (reads_defaultEntry card description)) _
  | false =>
      have hcard : Mismatches limit (Parser.deckCard true) false
          (description.toList.map .text ++ .lineEnd :: rest) := by
        refine .bind (mismatches_key ?_)
        cases description <;> rfl
      have hdefault : Mismatches limit Parser.defaultEntry false
          (.key card :: description.toList.map .text ++ .lineEnd :: rest) := by
        refine .after (reads_trySymbol_false (by decide) rfl) fun b hb => ?_
        subst hb
        exact mismatches_keyword_key (by decide) hcard
      exact .choice_next (.statement hdefault)
        (.choice_first (.statement (reads_deckCard card description false)) [])

theorem mismatches_quantityClause {w : String} (hw : Quantity.ofKeyword? w = none) :
    Mismatches limit Parser.quantityClause newlines (.word w :: rest) := by
  refine .bind (Mismatches.choice_map (f := fun q : Quantity => do
    Parser.keyword q.keyword
    return q) .effect [.aspect, .purge, .draw, .halt, .delete] fun q => ?_)
  refine mismatches_word q.keyword_mem ?_
  rw [beq_eq_false_iff_ne]
  rintro rfl
  rw [q.ofKeyword?_keyword] at hw
  cases hw

theorem mismatches_branchClause {w : String} (hlink : (w == "link") = false)
    (hgoto : (w == "goto") = false) :
    Mismatches limit Parser.branchClause newlines (.word w :: rest) := by
  refine .bind (.after (reads_tryKeyword_false (by decide) hlink) fun b hb => ?_)
  subst hb
  exact mismatches_word (by decide) hgoto

-- A slot starts with one of these words.
theorem exists_word_slot (s : Slot) (rest : List Lexeme) :
    ∃ w ∈ ["consume", "greedy", "slot"], ∃ tail, s.lexemes ++ rest = .word w :: tail := by
  obtain ⟨id, label, description, consumes, greedy, requirements⟩ := s
  cases consumes with
  | true => exact ⟨"consume", by decide, _, rfl⟩
  | false =>
      cases greedy with
      | true => exact ⟨"greedy", by decide, _, rfl⟩
      | false => exact ⟨"slot", by decide, _, rfl⟩

-- No statement of a recipe but a branch or a slot starts with the word.
theorem reads_recipe_skip {w : String}
    (hw : ∀ v ∈ ["set", "require", "mutate", "ending"], (w == v) = false)
    (hquantity : Quantity.ofKeyword? w = none) {P : Statement → Prop}
    (h : Reads limit (Parser.choice (Parser.terminated (Parser.located Parser.branchClause))
      ([Parser.located Parser.recipeSlotClause].map Parser.terminated)) false (.word w :: ls) rest P) :
    Reads limit (Parser.choice (Parser.terminated (Parser.located Parser.setClause))
      ([Parser.located Parser.requireClause, Parser.located Parser.quantityClause,
        Parser.located Parser.mutateClause, Parser.located (Parser.referenceClause "ending"),
        Parser.located Parser.branchClause, Parser.located Parser.recipeSlotClause].map
        Parser.terminated)) false (.word w :: ls) rest P :=
  .other (by decide) (hw _ (by decide)) <| .other (by decide) (hw _ (by decide)) <|
    .choice_next (.statement (mismatches_quantityClause hquantity)) <|
    .other (by decide) (hw _ (by decide)) <| .other (by decide) (hw _ (by decide)) h

theorem reads_recipe_statement {c : Clause} (h : c.ValidIn limit .recipe) :
    TakesLine limit c [Parser.requireClause, Parser.quantityClause, Parser.mutateClause,
      Parser.referenceClause "ending", Parser.branchClause, Parser.recipeSlotClause] := by
  intro rest
  obtain ⟨hc, hkind⟩ := h
  cases c with
  | set key value => exact .choice_first (.statement (reads_setClause hc.2)) _
  | require r =>
      exact .other (by decide) rfl (.choice_first (.statement (reads_requireClause hc)) _)
  | quantity word element amount =>
      obtain ⟨_, q, rfl, hamount⟩ := hc
      have hother : ∀ v ∈ ["set", "require"], (q.keyword == v) = false := by
        cases q <;> decide
      exact .other (by decide) (hother _ (by decide)) <| .other (by decide) (hother _ (by decide)) <|
        .choice_first (.statement (reads_quantityClause hamount element)) _
  | mutate m =>
      exact .other (by decide) rfl <| .other (by decide) rfl <|
        .choice_next (.statement (mismatches_quantityClause rfl)) <|
        .choice_first (.statement (reads_mutateClause hc)) _
  | reference word target =>
      obtain rfl : word = "ending" := of_decide_eq_true hkind
      exact .other (by decide) rfl <| .other (by decide) rfl <|
        .choice_next (.statement (mismatches_quantityClause rfl)) <| .other (by decide) rfl <|
        .choice_first (.statement (reads_referenceClause "ending" target)) _
  | branch b =>
      have hbranch : Reads limit Parser.branchClause false
          ((Clause.branch b).lexemes ++ .lineEnd :: rest) (.lineEnd :: rest) (· = .branch b) :=
        reads_branchClause hc
      have hread := Reads.choice_first hbranch.statement
        ([Parser.located Parser.recipeSlotClause].map Parser.terminated)
      obtain ⟨kind, target, chance, requirements, spawn, expel⟩ := b
      cases kind with
      | link => exact reads_recipe_skip (by decide) rfl hread
      | goto => exact reads_recipe_skip (by decide) rfl hread
  | slot verb s =>
      cases verb with
      | some verb => cases hkind
      | none =>
          have hslot : Reads limit Parser.recipeSlotClause false (s.lexemes ++ .lineEnd :: rest)
              (.lineEnd :: rest) (· = .slot none s) := reads_recipeSlotClause hc.2
          have hother : ∀ w ∈ ["consume", "greedy", "slot"],
              (∀ v ∈ ["set", "require", "mutate", "ending"], (w == v) = false) ∧
                Quantity.ofKeyword? w = none ∧ (w == "link") = false ∧ (w == "goto") = false := by
            decide
          obtain ⟨w, hw, tail, heq⟩ := exists_word_slot s (.lineEnd :: rest)
          obtain ⟨hwords, hquantity, hlink, hgoto⟩ := hother w hw
          rw [heq] at hslot
          change Reads limit _ false (s.lexemes ++ .lineEnd :: rest) _ _
          rw [heq]
          exact reads_recipe_skip hwords hquantity
            (.choice_next (.statement (mismatches_branchClause hlink hgoto))
              (.choice_first hslot.statement []))
  | _ => cases hkind

theorem reads_legacy_statement {c : Clause} (h : c.ValidIn limit .legacy) :
    TakesLine limit c [Parser.referenceClause "verb", Parser.referenceClause "ending",
      Parser.referenceClause "status", Parser.referenceClause "exclude",
      Parser.startingCardClause] := by
  intro rest
  obtain ⟨hc, hkind⟩ := h
  cases c with
  | set key value => exact .choice_first (.statement (reads_setClause hc.2)) _
  | reference word target =>
      have hword : word ∈ ["verb", "ending", "status", "exclude"] := of_decide_eq_true hkind
      have hset : ∀ word ∈ ["verb", "ending", "status", "exclude"], (word == "set") = false := by
        decide
      have hkeyword : ∀ word ∈ ["verb", "ending", "status", "exclude"], word ∈ keywords := by
        decide
      refine .other (by decide) (hset word hword) ?_
      refine Reads.choice_map
        (f := fun word => Parser.terminated (Parser.located (Parser.referenceClause word))) _ hword
        (.statement (reads_referenceClause word target)) fun other hother hne => ?_
      refine .statement (mismatches_word (hkeyword other hother) ?_)
      rw [beq_eq_false_iff_ne]
      exact Ne.symm hne
  | startingCard card amount =>
      exact .other (by decide) rfl <| .other (by decide) rfl <| .other (by decide) rfl <|
        .other (by decide) rfl <| .other (by decide) rfl <|
        .choice_first (.statement (reads_startingCardClause hc.2.1)) []
  | _ => cases hkind

theorem DeckEntry.startsLine (e : DeckEntry) (tail : List Lexeme) :
    StartsLine (e.lexemes ++ tail) := by
  obtain ⟨card, description, isDefault⟩ := e
  cases isDefault <;> exact ⟨rfl, rfl⟩

-- Nothing that may be left out stands at the head of a statement.
theorem Clause.startsLine (c : Clause) (tail : List Lexeme) : StartsLine (c.lexemes ++ tail) := by
  cases c with
  | slot verb s =>
      cases verb with
      | none =>
          obtain ⟨w, _, rest, heq⟩ := exists_word_slot s tail
          change StartsLine (s.lexemes ++ tail)
          rw [heq]
          exact ⟨rfl, rfl⟩
      | some verb => exact ⟨rfl, rfl⟩
  | branch b =>
      obtain ⟨kind, target, chance, requirements, spawn, expel⟩ := b
      cases kind <;> exact ⟨rfl, rfl⟩
  | entry e => exact e.startsLine tail
  | _ => exact ⟨rfl, rfl⟩

end

end CardLore
