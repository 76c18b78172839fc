import CardLore.Proofs.Conduct.Basic
import CardLore.Statement.Block

namespace CardLore

section

variable {α : Type}

-- The parser accepts the text here.
def Parser.Accepts (p : Parser α) (ctx : Context) (s : State) : Prop :=
  ∃ v t, p ctx s = .ok v t

def Parser.Mismatches (p : Parser α) (ctx : Context) (s : State) : Prop :=
  ∃ pos expected furthest, p ctx s = .mismatch pos expected furthest

-- At most one of the alternatives, followed by the check, accepts the text here. If one does, the
-- whole gives the value of this alternative and stops where it does.
def Undisputed (check : Parser α → Parser α) (whole : Parser α) (alternatives : List (Parser α))
    (ctx : Context) (s : State) : Prop :=
  ∀ before p after, alternatives = before ++ p :: after → (check p).Accepts ctx s →
    (∀ q ∈ before ++ after, ¬ (check q).Accepts ctx s) ∧
      ∃ v t furthest, p ctx s = .ok v t ∧ whole ctx s = .ok v { t with furthest }

-- What the parser gives, and where it stops, depends on the place alone.
structure Steady (p : Parser α) : Prop where
  ok : ∀ ⦃ctx s s' t v⦄, s.Meets s' → p ctx s = .ok v t → ∃ t', t.Meets t' ∧ p ctx s' = .ok v t'
  mismatches : ∀ ⦃ctx s s'⦄, s.Meets s' → p.Mismatches ctx s → p.Mismatches ctx s'

theorem Steady.of {e : Reach} {p q : Parser α} {P : Settings → α → Prop} {R : α → α → Prop}
    (h : ∀ w : Settings, Tandem .any w w.left.limit e [] [] p q (P w) R) : Steady p where
  ok ctx s s' t v hmeets hok := by
    have hreply := (h (.twice ctx.toSetting)).fares rfl hmeets trivial
    rw [hok] at hreply
    generalize p ctx s' = r at hreply
    cases hreply with
    | @ok _ _ t' _ _ hmeets => exact ⟨t', hmeets, rfl⟩
  mismatches ctx s s' hmeets hp := by
    obtain ⟨pos, expected, furthest, hmismatch⟩ := hp
    have hreply := (h (.twice ctx.toSetting)).fares rfl hmeets trivial
    rw [hmismatch] at hreply
    generalize hright : p ctx s' = r at hreply
    cases hreply with
    | mismatch => exact ⟨_, _, _, hright⟩

theorem State.Meets.trans {s t u : State} (h : s.Meets t) (h' : t.Meets u) : s.Meets u :=
  ⟨h'.1.trans h.1, h'.2.trans h.2⟩

theorem State.Meets.eq_with {s t : State} (h : s.Meets t) :
    t = { s with furthest := t.furthest } := by
  obtain ⟨pos, rest, furthest⟩ := t
  obtain ⟨rfl, rfl⟩ := h
  rfl

-- If all alternatives before it mismatch, an alternative is reached.
theorem choice_of_mismatches {p : Parser α} (hsteady : Steady p) {ctx : Context} {s t : State}
    {v : α} (hp : p ctx s = .ok v t) {before after : List (Parser α)}
    (hbefore : ∀ q ∈ before, ∀ s', s.Meets s' → q.Mismatches ctx s') {first : Parser α}
    {others : List (Parser α)} (halternatives : first :: others = before ++ p :: after)
    {s' : State} (hmeets : s.Meets s') :
    ∃ furthest, Parser.choice first others ctx s' = .ok v { t with furthest } := by
  induction before generalizing first others s' with
  | nil =>
      obtain ⟨rfl, rfl⟩ := List.cons.inj halternatives
      obtain ⟨t', hmeets, hreply⟩ := hsteady.ok hmeets hp
      refine ⟨t'.furthest, ?_⟩
      rw [← hmeets.eq_with]
      cases others with
      | nil => exact hreply
      | cons q others =>
          rw [Parser.choice]
          beta_reduce
          rw [hreply]
  | cons q before ih =>
      obtain ⟨rfl, hothers⟩ := List.cons.inj halternatives
      obtain ⟨hfirst, hbefore⟩ := List.forall_mem_cons.mp hbefore
      obtain ⟨pos, expected, furthest, hreply⟩ := hfirst s' hmeets
      obtain ⟨second, others, rfl⟩ : ∃ r rs, others = r :: rs := by
        rw [hothers]
        cases before <;> exact ⟨_, _, rfl⟩
      rw [Parser.choice]
      beta_reduce
      rw [hreply]
      exact ih hbefore hothers (hmeets.trans ⟨rfl, rfl⟩)

end

-- An offset and the text from there on.
abbrev Spot := Nat × List Char

def State.spot (s : State) : Spot :=
  (s.pos, s.rest)

-- Trivia is skipped from `x` up to `y`.
def SkipsTo (newlines : Bool) (x y : Spot) : Prop :=
  ∃ crossed, Trivia.skip newlines x.1 x.2 = .stopped y.1 y.2 crossed

theorem SkipsTo.unique {newlines : Bool} {x y z : Spot} (h : SkipsTo newlines x y)
    (h' : SkipsTo newlines x z) : y = z := by
  obtain ⟨crossed, hy⟩ := h
  obtain ⟨crossed', hz⟩ := h'
  obtain ⟨hpos, hrest, -⟩ := Trivia.Scan.stopped.inj (hy.symm.trans hz)
  exact Prod.ext hpos hrest

-- Unless it mismatches, the parser gets from a spot to another one as `R` tells, or ends in a fault
-- where `F` holds.
def Expects {α : Type} (newlines : Bool) (p : Parser α) (R : Spot → Spot → Prop)
    (F : Spot → Prop) : Prop :=
  ∀ ctx s, ctx.newlines = newlines →
    (p ctx s).Sat (fun _ t => R s.spot t.spot) True (fun _ => F s.spot)

-- Unless it mismatches, the parser finds a spot where `C` holds.
def Commits {α : Type} (newlines : Bool) (p : Parser α) (C : Spot → Prop) : Prop :=
  Expects newlines p (fun x _ => C x) C

section

variable {α β : Type} {newlines : Bool} {p : Parser α} {f : α → Parser β}
  {R S : Spot → Spot → Prop} {F G C D : Spot → Prop}

namespace Expects

theorem mono (h : Expects newlines p R F) (hR : ∀ x y, R x y → S x y) (hF : ∀ x, F x → G x) :
    Expects newlines p S G :=
  fun ctx s hctx => (h ctx s hctx).mono (fun _ _ => hR _ _) id fun _ => hF _

theorem bind (hp : Expects newlines p R F) (hf : ∀ v, Expects newlines (f v) S G) :
    Expects newlines (p >>= f) (Relation.Comp R S) (fun x => F x ∨ ∃ y, R x y ∧ G y) := by
  intro ctx s hctx
  refine sat_bind_of (hp ctx s hctx) id (fun _ => .inl) fun v t ht => ?_
  refine (hf v ctx t hctx).mono (fun _ u hu => ⟨t.spot, ht, hu⟩) id fun _ hfault => ?_
  exact .inr ⟨t.spot, ht, hfault⟩

-- Behind a parser that never refuses the text.
theorem next (hp : Expects newlines p R fun _ => False)
    (hf : ∀ v, Expects newlines (f v) S fun _ => False) :
    Expects newlines (p >>= f) (Relation.Comp R S) fun _ => False := by
  refine (hp.bind hf).mono (fun _ _ h => h) ?_
  rintro x (h | ⟨y, -, h⟩)
  · exact h
  · exact h

theorem pure {v : α} : Expects newlines (Pure.pure v) (fun x y => y = x) fun _ => False :=
  fun _ _ _ => rfl

-- What is made of the value does not matter.
theorem returns (hp : Expects newlines p R F) (hf : ∀ v, ∃ w, f v = Pure.pure w) :
    Expects newlines (p >>= f) R F := by
  have hpure : ∀ v, Expects newlines (f v) (fun x y => y = x) fun _ => False := by
    intro v
    obtain ⟨w, hw⟩ := hf v
    rw [hw]
    exact pure
  refine (hp.bind hpure).mono ?_ ?_
  · rintro x y ⟨m, hm, rfl⟩
    exact hm
  · rintro x (h | ⟨y, -, h⟩)
    · exact h
    · exact h.elim

theorem attempt (hp : Expects newlines p R F) :
    Expects newlines (Parser.attempt p) (fun x y => R x y ∨ y = x) F := by
  intro ctx s hctx
  have h := hp ctx s hctx
  rw [Parser.attempt]
  cases hreply : p ctx s with
  | ok v t =>
      rw [hreply] at h
      exact .inl h
  | mismatch => exact .inr rfl
  | fault =>
      rw [hreply] at h
      exact h

-- Either the attempted text stands here, or what follows has to be found.
theorem found {f : Bool → Parser β} (hp : Expects newlines p R fun _ => False)
    (hR : ∀ x y, R x y → C x) (hf : Expects newlines (f false) S G) :
    Expects newlines ((do return (← Parser.attempt p).isSome : Parser Bool) >>= f)
      (fun x y => C x ∨ S x y) fun x => C x ∨ G x := by
  rw [Parser.bind_assoc]
  intro ctx s hctx
  have h := hp ctx s hctx
  change (Parser.bind (Parser.attempt p) _ ctx s).Sat _ _ _
  rw [Parser.bind, Parser.attempt]
  cases hreply : p ctx s with
  | ok v t =>
      rw [hreply] at h
      have hhere : C s.spot := hR _ _ h
      change (f true ctx t).Sat _ _ _
      cases f true ctx t with
      | ok => exact .inl hhere
      | mismatch => trivial
      | fault => exact .inl hhere
  | mismatch pos expected furthest =>
      exact (hf ctx { s with furthest } hctx).mono (fun _ _ => .inr) id fun _ => .inr
  | fault =>
      rw [hreply] at h
      exact h.elim

theorem commits (hp : Expects newlines p R fun _ => False) :
    Commits newlines p fun x => ∃ y, R x y :=
  hp.mono (fun _ y h => ⟨y, h⟩) fun _ h => h.elim

theorem of_accepts (hp : Expects newlines p R F) {ctx : Context} {s : State}
    (hctx : ctx.newlines = newlines) (haccepts : p.Accepts ctx s) : ∃ y, R s.spot y := by
  obtain ⟨v, t, hreply⟩ := haccepts
  have h := hp ctx s hctx
  rw [hreply] at h
  exact ⟨t.spot, h⟩

end Expects

namespace Commits

theorem mono (h : Commits newlines p C) (hC : ∀ x, C x → D x) : Commits newlines p D :=
  Expects.mono h (fun x _ => hC x) hC

theorem any (p : Parser α) : Commits newlines p fun _ => True := by
  intro ctx s _
  cases p ctx s <;> trivial

-- What a parser finds, whatever follows it.
theorem left (hp : Commits newlines p C) : Commits newlines (p >>= f) C := by
  have hf : ∀ v, Expects newlines (f v) (fun _ _ => True) fun _ => True :=
    fun v => any (f v)
  refine (hp.bind hf).mono ?_ ?_
  · rintro x y ⟨m, hm, -⟩
    exact hm
  · rintro x (h | ⟨y, h, -⟩)
    · exact h
    · exact h

theorem next (hp : Expects newlines p R fun _ => False) (hf : ∀ v, Commits newlines (f v) C) :
    Commits newlines (p >>= f) fun x => ∃ y, R x y ∧ C y := by
  refine (Expects.bind hp hf).mono ?_ ?_
  · rintro x z ⟨y, hy, hC⟩
    exact ⟨y, hy, hC⟩
  · rintro x (h | h)
    · exact h.elim
    · exact h

theorem choice {others : List (Parser α)} (hp : Commits newlines p C)
    (hothers : ∀ q ∈ others, Commits newlines q C) :
    Commits newlines (Parser.choice p others) C := by
  induction others generalizing p with
  | nil => exact hp
  | cons q others ih =>
      obtain ⟨hq, hothers⟩ := List.forall_mem_cons.mp hothers
      intro ctx s hctx
      have h := hp ctx s hctx
      rw [Parser.choice]
      beta_reduce
      cases hreply : p ctx s with
      | ok v t =>
          rw [hreply] at h
          exact h
      | mismatch pos expected furthest => exact ih hq hothers ctx { s with furthest } hctx
      | fault =>
          rw [hreply] at h
          exact h

theorem found {f : Bool → Parser β} (hp : Expects newlines p R fun _ => False)
    (hR : ∀ x y, R x y → C x) (hf : Commits newlines (f false) C) :
    Commits newlines ((do return (← Parser.attempt p).isSome : Parser Bool) >>= f) C := by
  refine (Expects.found hp hR hf).mono ?_ ?_
  · rintro x _ (h | h)
    · exact h
    · exact h
  · rintro x (h | h)
    · exact h
    · exact h

theorem of_accepts (hp : Commits newlines p C) {ctx : Context} {s : State}
    (hctx : ctx.newlines = newlines) (haccepts : p.Accepts ctx s) : C s.spot := by
  obtain ⟨_, h⟩ := Expects.of_accepts hp hctx haccepts
  exact h

end Commits

end

section

variable {α : Type} {newlines : Bool} {check : Parser α → Parser α} {p q : Parser α}

-- The first parser mismatches wherever the second one, followed by the check, accepts the text.
def GivesWay (newlines : Bool) (check : Parser α → Parser α) (p q : Parser α) : Prop :=
  ∀ ctx s, ctx.newlines = newlines → (check q).Accepts ctx s → p.Mismatches ctx s

theorem Commits.givesWay {C K : Spot → Prop} (hp : Commits newlines p C)
    (hq : ∀ ctx s, ctx.newlines = newlines → (check q).Accepts ctx s → K s.spot)
    (hclash : ∀ x, C x → ¬ K x) : GivesWay newlines check p q := by
  intro ctx s hctx haccepts
  have h := hp ctx s hctx
  have hK := hq ctx s hctx haccepts
  cases hreply : p ctx s with
  | ok v t =>
      rw [hreply] at h
      exact absurd hK (hclash _ h)
  | mismatch pos expected furthest => exact ⟨pos, expected, furthest, hreply⟩
  | fault =>
      rw [hreply] at h
      exact absurd hK (hclash _ h)

theorem Parser.Mismatches.not_accepts {ctx : Context} {s : State} (h : p.Mismatches ctx s) :
    ¬ p.Accepts ctx s := by
  obtain ⟨pos, expected, furthest, hp⟩ := h
  rintro ⟨v, t, hok⟩
  cases hp.symm.trans hok

-- A check only looks at what comes behind the text that it is about.
def ChecksBehind (check : Parser α → Parser α) : Prop :=
  ∀ p ctx s, (check p).Accepts ctx s → p.Accepts ctx s

theorem undisputed_of_givesWay (hcheck : ChecksBehind check) {first : Parser α}
    {others : List (Parser α)} (hsteady : ∀ p ∈ first :: others, Steady p)
    (hgives : (first :: others).Pairwise (GivesWay newlines check)) {ctx : Context}
    (hctx : ctx.newlines = newlines) (s : State) :
    Undisputed check (Parser.choice first others) (first :: others) ctx s := by
  intro before p after halternatives haccepts
  rw [halternatives] at hsteady hgives
  obtain ⟨-, hpafter, hbefore⟩ := List.pairwise_append.mp hgives
  obtain ⟨hafter, -⟩ := List.pairwise_cons.mp hpafter
  obtain ⟨v, t, hp⟩ := hcheck p ctx s haccepts
  have hmismatches : ∀ q ∈ before, q.Mismatches ctx s :=
    fun q hq => hbefore q hq p List.mem_cons_self ctx s hctx haccepts
  refine ⟨fun q hq hqaccepts => ?_, v, t, ?_⟩
  · rcases List.mem_append.mp hq with hq | hq
    · exact (hmismatches q hq).not_accepts (hcheck q ctx s hqaccepts)
    · exact (hafter q hq ctx s hctx hqaccepts).not_accepts ⟨v, t, hp⟩
  · obtain ⟨hfront, hrest⟩ := List.forall_mem_append.mp hsteady
    obtain ⟨furthest, hchoice⟩ := choice_of_mismatches (hrest p List.mem_cons_self) hp
      (fun q hq s' hmeets => (hfront q hq).mismatches hmeets (hmismatches q hq)) halternatives
      ⟨rfl, rfl⟩
    exact ⟨furthest, hp, hchoice⟩

end

-- An alternative with what it finds unless it mismatches, and with what it finds if the check
-- behind it is passed.
structure Bid (α : Type) where
  parser : Parser α
  found : Spot → Prop
  passed : Spot → Prop

structure Bid.Holds {α : Type} (newlines : Bool) (check : Parser α → Parser α) (b : Bid α) :
    Prop where
  steady : Steady b.parser
  found : Commits newlines b.parser b.found
  passed : ∀ ctx s, ctx.newlines = newlines → (check b.parser).Accepts ctx s → b.passed s.spot

-- No text is found by one alternative and passes with a later one.
theorem undisputed_of_bids {α : Type} {newlines : Bool} {check : Parser α → Parser α}
    (hcheck : ChecksBehind check) {first : Parser α} {others : List (Parser α)} (bids : List (Bid α))
    (hbids : ∀ b ∈ bids, b.Holds newlines check)
    (hclash : bids.Pairwise fun b c => ∀ x, b.found x → ¬ c.passed x)
    (halternatives : bids.map (·.parser) = first :: others) {ctx : Context}
    (hctx : ctx.newlines = newlines) (s : State) :
    Undisputed check (Parser.choice first others) (first :: others) ctx s := by
  refine undisputed_of_givesWay hcheck ?_ ?_ hctx s
  · rw [← halternatives]
    exact List.forall_mem_map.mpr fun b hb => (hbids b hb).steady
  · rw [← halternatives, List.pairwise_map]
    refine hclash.imp_of_mem fun {b c} hb hc hbc => ?_
    exact (hbids b hb).found.givesWay (hbids c hc).passed hbc

end CardLore
