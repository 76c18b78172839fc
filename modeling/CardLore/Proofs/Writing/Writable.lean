import CardLore.Proofs.Construction.Component

namespace CardLore

-- The statement is valid, and a body of the kind may hold it.
structure Clause.ValidIn (limit : Nat) (kind : Kind) (c : Clause) : Prop where
  valid : c.Valid limit
  admitted : kind.admits c = true

theorem forall_mem_toList_map {α β : Type} {o : Option α} {f : α → β} {P : β → Prop}
    (h : ∀ x ∈ o, P (f x)) : ∀ y ∈ o.toList.map f, P y :=
  List.forall_mem_map.mpr fun x hx => h x (Option.mem_toList.mp hx)

section

variable {limit : Nat}

theorem validIn_assignText {kind : Kind} (hkind : ∀ key value, kind.admits (.set key value) = true)
    {key : String} (hkey : Key.Valid key) (t : Option Text) :
    ∀ c ∈ assignText key t, c.ValidIn (limit + 1) kind :=
  forall_mem_toList_map fun t _ => ⟨⟨hkey, .string t⟩, hkind key (.string t)⟩

theorem validIn_assignOthers {kind : Kind}
    (hkind : ∀ key value, kind.admits (.set key value) = true) {R : Type} {fields : Fields R}
    {others : Others} (h : ValidOthers (limit + 1) fields others) :
    ∀ c ∈ assignOthers others, c.ValidIn (limit + 1) kind :=
  List.forall_mem_map.mpr fun e he => ⟨⟨h.key e he, h.value e he⟩, hkind e.1 e.2⟩

theorem Aspect.Valid.validIn {r : Aspect} (h : r.Valid (limit + 1)) :
    ∀ c ∈ r.clauses, c.ValidIn (limit + 1) .aspect := by
  simp only [Aspect.clauses, List.forall_mem_append]
  refine ⟨validIn_assignText (fun _ _ => rfl) (by decide) _,
    validIn_assignText (fun _ _ => rfl) (by decide) _,
    validIn_assignOthers (fun _ _ => rfl) h.others, ?_, ?_⟩
  · exact forall_mem_toList_map fun i hi => ⟨h.induces i hi, rfl⟩
  · exact List.forall_mem_map.mpr fun x hx => ⟨h.xtriggers x hx, rfl⟩

theorem Card.Valid.validIn {r : Card} (h : r.Valid (limit + 1)) :
    ∀ c ∈ r.clauses, c.ValidIn (limit + 1) .card := by
  have hunique : ∀ c ∈ uniqueClauses r.unique r.uniquenessGroup, c.ValidIn (limit + 1) .card := by
    refine List.forall_mem_append.mpr ⟨?_, forall_mem_toList_map fun group hgroup => ⟨?_, rfl⟩⟩
    · intro c hc
      obtain ⟨_, rfl⟩ := List.mem_ite_nil_right.mp hc |>.imp_right List.mem_singleton.mp
      exact ⟨nofun, rfl⟩
    · intro key hkey
      cases hkey
      exact h.group group hgroup
  have hslots : ∀ c ∈ r.slots.flatMap (fun entry => entry.2.map (Clause.slot (some entry.1))),
      c.ValidIn (limit + 1) .card := by
    intro c hc
    obtain ⟨entry, hentry, hc⟩ := List.mem_flatMap.mp hc
    obtain ⟨s, hs, rfl⟩ := List.mem_map.mp hc
    refine ⟨⟨?_, h.slots entry hentry s hs⟩, rfl⟩
    intro verb hverb
    cases hverb
    exact h.slotVerb entry hentry
  simp only [Card.clauses, List.forall_mem_append, List.forall_mem_cons]
  refine ⟨validIn_assignText (fun _ _ => rfl) (by decide) _,
    validIn_assignText (fun _ _ => rfl) (by decide) _, ⟨⟨by decide, .bool _⟩, rfl⟩,
    validIn_assignOthers (fun _ _ => rfl) h.others, ?_, hunique, hslots, ?_⟩
  · exact forall_mem_toList_map fun i hi => ⟨h.induces i hi, rfl⟩
  · exact List.forall_mem_map.mpr fun x hx => ⟨h.xtriggers x hx, rfl⟩

theorem Recipe.Valid.validIn {r : Recipe} (h : r.Valid (limit + 1)) :
    ∀ c ∈ r.clauses, c.ValidIn (limit + 1) .recipe := by
  have hset : ∀ key value, Kind.recipe.admits (.set key value) = true := fun _ _ => rfl
  have hquantities : ∀ c ∈ Quantity.all.flatMap (fun q => quantityClauses q (q.entries r)),
      c.ValidIn (limit + 1) .recipe := by
    intro c hc
    obtain ⟨q, hq, hc⟩ := List.mem_flatMap.mp hc
    obtain ⟨e, he, rfl⟩ := List.mem_map.mp hc
    have hentries := h.quantities q hq
    exact ⟨⟨hentries.key e he, q, rfl, hentries.amount e he⟩, rfl⟩
  simp only [Recipe.clauses, List.forall_mem_append, List.forall_mem_cons]
  refine ⟨⟨⟨by decide, .int h.warmup.2⟩, rfl⟩, ⟨⟨by decide, .int h.maxExecutions.2⟩, rfl⟩,
    ⟨⟨by decide, .bool _⟩, rfl⟩, ⟨⟨by decide, .bool _⟩, rfl⟩, validIn_assignText hset (by decide) _,
    validIn_assignText hset (by decide) _, ⟨⟨by decide, .string _⟩, rfl⟩,
    validIn_assignOthers hset h.others, ?_, hquantities, ?_, ?_, ?_, ?_⟩
  · exact List.forall_mem_map.mpr fun requirement hr => ⟨h.requirements requirement hr, rfl⟩
  · exact List.forall_mem_map.mpr fun m hm => ⟨h.mutations m hm, rfl⟩
  · exact forall_mem_toList_map fun target ht => ⟨⟨by decide, h.ending target ht⟩, rfl⟩
  · exact forall_mem_toList_map fun s hs => ⟨⟨nofun, h.slot s hs⟩, rfl⟩
  · exact List.forall_mem_map.mpr fun b hb => ⟨h.branches b hb, rfl⟩

theorem Legacy.Valid.validIn {r : Legacy} (h : r.Valid (limit + 1)) :
    ∀ c ∈ r.clauses, c.ValidIn (limit + 1) .legacy := by
  simp only [Legacy.clauses, List.forall_mem_append, List.forall_mem_cons]
  refine ⟨⟨⟨by decide, .string _⟩, rfl⟩, ⟨⟨by decide, .bool _⟩, rfl⟩, ⟨⟨by decide, .bool _⟩, rfl⟩,
    validIn_assignOthers (fun _ _ => rfl) h.others, ?_, ?_, ?_, ?_, ?_⟩
  · exact forall_mem_toList_map fun target ht => ⟨⟨by decide, h.startingVerb target ht⟩, rfl⟩
  · exact forall_mem_toList_map fun target ht => ⟨⟨by decide, h.fromEnding target ht⟩, rfl⟩
  · exact List.forall_mem_map.mpr fun target ht => ⟨⟨by decide, h.status target ht⟩, rfl⟩
  · exact List.forall_mem_map.mpr fun target ht => ⟨⟨by decide, h.excluded target ht⟩, rfl⟩
  · exact List.forall_mem_map.mpr fun e he =>
      ⟨⟨h.startingCards.key e he, h.startingCards.count e he⟩, rfl⟩

theorem Verb.Valid.validIn {r : Verb} (h : r.Valid (limit + 1)) :
    ∀ c ∈ assignOthers r.others, c.ValidIn (limit + 1) .verb :=
  validIn_assignOthers (fun _ _ => rfl) h.others

end

-- Each of the lexemes has a text.
def AllWritable (ls : List Lexeme) : Prop :=
  ∀ l ∈ ls, l.Writable

namespace AllWritable

variable {β : Type} {ls : List Lexeme}

theorem nil : AllWritable [] :=
  nofun

theorem word {w : String} (hw : w ∈ keywords) (h : AllWritable ls) : AllWritable (.word w :: ls) :=
  List.forall_mem_cons.mpr ⟨hw, h⟩

theorem symbol {t : String} (ht : t ∈ symbols) (h : AllWritable ls) :
    AllWritable (.symbol t :: ls) :=
  List.forall_mem_cons.mpr ⟨ht, h⟩

theorem key {k : Key} (hk : k.Valid) (h : AllWritable ls) : AllWritable (.key k :: ls) :=
  List.forall_mem_cons.mpr ⟨hk, h⟩

theorem text (t : Text) (h : AllWritable ls) : AllWritable (.text t :: ls) :=
  List.forall_mem_cons.mpr ⟨trivial, h⟩

theorem number {n : Int} (hn : IsInteger n) (h : AllWritable ls) : AllWritable (.number n :: ls) :=
  List.forall_mem_cons.mpr ⟨hn, h⟩

theorem percent (p : Probability) (h : AllWritable ls) : AllWritable (.percent p :: ls) :=
  List.forall_mem_cons.mpr ⟨trivial, h⟩

theorem lineEnd (h : AllWritable ls) : AllWritable (.lineEnd :: ls) :=
  List.forall_mem_cons.mpr ⟨trivial, h⟩

theorem append {ls' : List Lexeme} (h : AllWritable ls) (h' : AllWritable ls') :
    AllWritable (ls ++ ls') :=
  List.forall_mem_append.mpr ⟨h, h'⟩

theorem flatMap {xs : List β} {write : β → List Lexeme} (h : ∀ x ∈ xs, AllWritable (write x)) :
    AllWritable (xs.flatMap write) := by
  intro l hl
  obtain ⟨x, hx, hl⟩ := List.mem_flatMap.mp hl
  exact h x hx l hl

theorem option {o : Option β} {write : β → List Lexeme} (h : ∀ x ∈ o, AllWritable (write x)) :
    AllWritable (o.toList.flatMap write) :=
  .flatMap fun x hx => h x (Option.mem_toList.mp hx)

theorem single {l : Lexeme} (h : l.Writable) : AllWritable [l] :=
  List.forall_mem_singleton.mpr h

theorem writeIf (b : Bool) {l : Lexeme} (h : l.Writable) : AllWritable (CardLore.writeIf b l) := by
  cases b with
  | true => exact .single h
  | false => exact .nil

theorem commaSeparated {close : String} (hclose : close ∈ symbols) {xs : List β}
    {write : β → List Lexeme} (h : ∀ x ∈ xs, AllWritable (write x)) :
    AllWritable (CardLore.commaSeparated close (xs.map write)) := by
  cases xs with
  | nil => exact .single hclose
  | cons x xs =>
      obtain ⟨hx, hxs⟩ := List.forall_mem_cons.mp h
      refine .append hx (.append (.flatMap ?_) (.single hclose))
      exact List.forall_mem_map.mpr fun y hy => .symbol (by decide) (hxs y hy)

theorem writeBlock {xs : List β} {write : β → List Lexeme}
    (h : ∀ x ∈ xs, AllWritable (write x)) :
    AllWritable (CardLore.writeBlock (xs.map write)) := by
  refine .symbol (by decide) (.lineEnd (.append (.flatMap ?_) (.single ?_)))
  · exact List.forall_mem_map.mpr fun x hx => .append (h x hx) (.single trivial)
  · exact (by decide : "\x7d" ∈ symbols)

end AllWritable

theorem Literal.Fits.writable {depth : Nat} {lit : Literal} (h : lit.Fits depth) :
    AllWritable lit.lexemes := by
  induction h with
  | null => exact .key (by decide) .nil
  | bool b => cases b <;> exact .key (by decide) .nil
  | int h => exact .number h .nil
  | string t => exact .text t .nil
  | array _ ih =>
      rw [Literal.lexemes, itemLexemes_eq_map]
      exact .symbol (by decide) (.commaSeparated (by decide) ih)
  | object _ _ ih =>
      rw [Literal.lexemes, memberLexemes_eq_map]
      exact .symbol (by decide) (.commaSeparated (by decide) fun m hm =>
        .text m.1 (.symbol (by decide) (ih m hm)))

theorem Attribute.Valid.writable {mark : String} (hmark : mark ∈ symbols) {limit : Nat}
    {a : Attribute} (h : a.Valid limit) : AllWritable (a.lexemes mark) :=
  .symbol hmark <| .symbol (by decide) <| .key h.key <| .symbol (by decide) <|
    .append h.value.writable (.symbol (by decide) .nil)

theorem writable_element {e : Key × Int} (hkey : e.1.Valid) (hn : IsInteger e.2) :
    AllWritable (elementLexemes e) :=
  .key hkey (.symbol (by decide) (.number hn .nil))

theorem ValidCounts.writable {entries : List (Key × Int)} (h : ValidCounts entries) :
    ∀ e ∈ entries, AllWritable (elementLexemes e) :=
  fun e he => writable_element (h.key e he) (h.count e he).2

theorem SlotFilter.Valid.writable {f : SlotFilter} (h : f.Valid) : AllWritable f.lexemes :=
  .append (.writeIf _ (by decide : "!" ∈ symbols)) (writable_element h.element h.amount.2)

theorem Slot.Valid.writable {s : Slot} (h : s.Valid) : AllWritable s.lexemes :=
  .append (.writeIf _ (by decide : "consume" ∈ keywords)) <|
    .append (.writeIf _ (by decide : "greedy" ∈ keywords)) <|
    .word (by decide) <| .key h.id <| .text _ <| .text _ <| .symbol (by decide) <|
    .commaSeparated (by decide) fun f hf => (h.requirements f hf).writable

theorem Reaction.writable (r : Reaction) : AllWritable r.lexemes := by
  cases r with
  | transform => exact .nil
  | spawn => exact .word (by decide) .nil
  | mutate => exact .word (by decide) .nil

theorem Xtrigger.Valid.writable {x : Xtrigger} (h : x.Valid) : AllWritable x.lexemes :=
  .word (by decide) <| .key h.catalyst <| .symbol (by decide) <| .append (Reaction.writable _) <|
    .key h.target <| .symbol (by decide) <| .number h.amount <| .percent _ .nil

theorem Operation.Valid.writable {o : Operation} (h : o.Valid) : AllWritable o.lexemes :=
  .append (.writeIf _ (by decide : "=" ∈ symbols)) (.number h.amount .nil)

theorem Amount.Valid.writable {q : Quantity} {a : Amount} (h : a.Valid q) :
    AllWritable a.lexemes := by
  cases a with
  | count n => exact .number h.2.2 .nil
  | change operation => exact h.2.writable

theorem RequirementKind.writable (k : RequirementKind) : AllWritable k.lexemes := by
  cases k with
  | basic => exact .nil
  | table => exact .word (by decide) .nil
  | extant => exact .word (by decide) .nil

theorem Requirement.Valid.writable {r : Requirement} (h : r.Valid) : AllWritable r.lexemes := by
  refine .append (RequirementKind.writable _) (.key h.element (.symbol (by decide) (.single ?_)))
  have hamount := h.amount
  cases hr : r.amount with
  | number n =>
      rw [hr] at hamount
      exact hamount
  | element key =>
      rw [hr] at hamount
      exact hamount.1

theorem Branch.Valid.writable {b : Branch} (h : b.Valid) : AllWritable b.lexemes := by
  have htail : AllWritable b.lexemes.tail := by
    refine .key h.target (.append ?_ (.symbol (by decide) (.append ?_ (.append ?_ (.option ?_)))))
    · exact forall_mem_toList_map fun _ _ => trivial
    · exact .commaSeparated (by decide) fun r hr => (h.requirements r hr).writable
    · exact .writeIf _ (by decide : "spawn" ∈ keywords)
    · exact fun e he =>
        .word (by decide) (.symbol (by decide) (.commaSeparated (by decide) (h.expel e he).writable))
  rw [Branch.lexemes]
  cases b.kind with
  | link => exact .word (by decide) htail
  | goto => exact .word (by decide) htail

theorem DeckEntry.writable {e : DeckEntry} (h : e.card.Valid) : AllWritable e.lexemes :=
  .append (.writeIf _ (by decide : "default" ∈ keywords)) <|
    .key h <| forall_mem_toList_map fun _ _ => trivial

theorem Clause.Valid.writable {limit : Nat} {c : Clause} (h : c.Valid limit) : AllWritable c.lexemes := by
  cases c with
  | set key value => exact .word (by decide) (.key h.1 (.symbol (by decide) h.2.writable))
  | induce recipe chance => exact .word (by decide) (.key h (.percent _ .nil))
  | xtrigger x => exact Xtrigger.Valid.writable h
  | unique group => exact .word (by decide) (forall_mem_toList_map h)
  | slot verb s =>
      cases verb with
      | none => exact h.2.writable
      | some verb => exact .key (h.1 verb rfl) (.symbol (by decide) h.2.writable)
  | entry e => exact DeckEntry.writable h
  | require r => exact .word (by decide) (Requirement.Valid.writable h)
  | quantity word element amount =>
      obtain ⟨helement, q, rfl, hamount⟩ := h
      exact .word q.keyword_mem (.key helement (.symbol (by decide) hamount.writable))
  | mutate m =>
      exact .word (by decide) (.key h.id (.key h.aspect (.symbol (by decide) h.operation.writable)))
  | reference word target => exact .word h.1 (.key h.2 .nil)
  | startingCard card amount => exact .word (by decide) (writable_element h.1 h.2.2)
  | branch b => exact Branch.Valid.writable h

theorem Aspect.Valid.writable {limit : Nat} {r : Aspect} (h : r.Valid (limit + 1)) :
    AllWritable r.lexemes :=
  .append (.writeIf _ (by decide : "hidden" ∈ keywords)) <| .word (by decide) <| .key h.id <|
    .text _ <| .text _ <|
    .append (.option fun target ht => .symbol (by decide) (.key (h.decaysTo target ht) .nil)) <|
    .writeBlock fun c hc => (h.validIn c hc).valid.writable

theorem writable_decay {target : Option Key} {lifetime : Option Int}
    (htarget : ∀ key ∈ target, key.Valid) (hlifetime : ∀ n ∈ lifetime, IsInteger n) :
    AllWritable (decayLexemes target lifetime) := by
  have hboth : AllWritable (target.toList.map Lexeme.key ++ lifetime.toList.map .number) :=
    .append (forall_mem_toList_map htarget) (forall_mem_toList_map hlifetime)
  cases target with
  | some target => exact .symbol (by decide) hboth
  | none =>
      cases lifetime with
      | some n => exact .symbol (by decide) hboth
      | none => exact .nil

theorem Card.Valid.writable {limit : Nat} {r : Card} (h : r.Valid (limit + 1)) :
    AllWritable r.lexemes :=
  .append (.writeIf _ (by decide : "hidden" ∈ keywords)) <| .word (by decide) <| .key h.id <|
    .text _ <| .text _ <| .symbol (by decide) <|
    .append (.commaSeparated (by decide) h.aspects.writable) <|
    .append (writable_decay (fun target ht => (h.decaysTo target ht).1)
      fun n hn => (h.lifetime n hn).2) <|
    .writeBlock fun c hc => (h.validIn c hc).valid.writable

theorem map_card_deckEntries (default : Option Key) (cards : List (Key × Option Text)) :
    (deckEntries default cards).map (·.card) = cards.map (·.1) := by
  fun_induction deckEntries default cards with
  | case1 => rfl
  | case2 card description cards ih => rw [List.map_cons, List.map_cons, ih]
  | case3 card description cards ih => rw [List.map_cons, List.map_cons, ih]
  | case4 default card description cards _ ih => rw [List.map_cons, List.map_cons, ih]

theorem Deck.Valid.writable {r : Deck} (h : r.Valid) : AllWritable r.lexemes := by
  refine .word (by decide) (.key h.id (.text _ (.text _ (.writeBlock fun e he => ?_))))
  have hcard := List.mem_map_of_mem (f := fun e : DeckEntry => e.card) he
  rw [map_card_deckEntries] at hcard
  obtain ⟨entry, hentry, hcard⟩ := List.mem_map.mp hcard
  refine DeckEntry.writable ?_
  rw [← hcard]
  exact h.card entry hentry

theorem Verb.Valid.writable {limit : Nat} {r : Verb} (h : r.Valid (limit + 1)) :
    AllWritable r.lexemes :=
  .word (by decide) <| .key h.id <| .text _ <| .text _ <|
    .append (.option fun s hs =>
      .symbol (by decide) (.append (h.slot s hs).writable (.symbol (by decide) .nil))) <|
    .writeBlock fun c hc => (h.validIn c hc).valid.writable

theorem Recipe.Valid.writable {limit : Nat} {r : Recipe} (h : r.Valid (limit + 1)) :
    AllWritable r.lexemes :=
  .word (by decide) <| .key h.id <| .key h.verb <| .text _ <| .text _ <| .text _ <|
    .writeBlock fun c hc => (h.validIn c hc).valid.writable

theorem Legacy.Valid.writable {limit : Nat} {r : Legacy} (h : r.Valid (limit + 1)) :
    AllWritable r.lexemes :=
  .word (by decide) <| .key h.id <| .text _ <| .text _ <| .text _ <|
    .writeBlock fun c hc => (h.validIn c hc).valid.writable

theorem Ending.Valid.writable {limit : Nat} {r : Ending} (h : r.Valid limit) :
    AllWritable r.lexemes :=
  .word (by decide) <| .key h.id <| .text _ <| .text _ <| (Ending.fits_body h).writable

theorem Component.Valid.writable {limit : Nat} {c : Component} (h : c.Valid (limit + 1)) :
    AllWritable c.lexemes := by
  cases c with
  | aspect r => exact Aspect.Valid.writable h
  | card r => exact Card.Valid.writable h
  | deck r => exact Deck.Valid.writable h
  | recipe r => exact Recipe.Valid.writable h
  | verb r => exact Verb.Valid.writable h
  | legacy r => exact Legacy.Valid.writable h
  | ending r => exact Ending.Valid.writable h

theorem ComponentDeclaration.Valid.writable {limit : Nat} {d : ComponentDeclaration}
    (h : d.Valid (limit + 1)) : AllWritable d.lexemes :=
  .append (.flatMap fun a ha => (h.attributes a ha).writable (by decide)) <|
    .append (.option fun parent hparent => .word (by decide) (.key (h.inherits parent hparent) .nil))
      h.component.writable

theorem Declaration.Fits.writable {limit depth : Nat} {d : Declaration}
    (h : d.Fits (limit + 1) depth) : AllWritable d.lexemes := by
  induction h with
  | scope hid hattributes _ ih =>
      rw [Declaration.lexemes, Declaration.bodyLexemes_eq_flatMap]
      refine .append (.flatMap fun a ha => (hattributes a ha).writable (by decide)) ?_
      refine .word (by decide) (.key hid (.symbol (by decide) (.append (.flatMap fun d hd => ?_) ?_)))
      · exact .lineEnd (ih d hd)
      · exact .lineEnd (.symbol (by decide) .nil)
  | component h => exact h.writable

theorem FileTree.Valid.writable {limit : Nat} {t : FileTree} (h : t.Valid limit) :
    AllWritable t.lexemes := by
  obtain ⟨limit, rfl⟩ := Nat.exists_eq_add_one.mpr h.depth
  rw [FileTree.lexemes, Declaration.bodyLexemes_eq_flatMap]
  refine .append (.flatMap fun a ha => .lineEnd ((h.attributes a ha).writable (by decide))) ?_
  exact .append (.flatMap fun d hd => .lineEnd (h.declarations d hd).writable) (.lineEnd .nil)

end CardLore
