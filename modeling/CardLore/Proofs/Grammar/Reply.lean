import CardLore.Proofs.Grammar.Trivia

namespace CardLore

-- The value and state have `P`, a mismatch means `M`, and a fault has `F`.
def Reply.Sat {α : Type} (P : α → State → Prop) (M : Prop) (F : Fault → Prop) : Reply α → Prop
  | .ok value next => P value next
  | .mismatch _ _ _ => M
  | .fault cause _ => F cause

-- The characters `cs` are read between two states.
def State.Takes (s : State) (cs : List Char) (t : State) : Prop :=
  s.rest = cs ++ t.rest ∧ t.pos = s.pos + cs.length

namespace State.Takes

variable {s t u : State} {cs ds : List Char}

theorem of_eq (hrest : t.rest = s.rest) (hpos : t.pos = s.pos) : s.Takes [] t :=
  ⟨hrest.symm, hpos⟩

theorem trans (h : s.Takes cs t) (h' : t.Takes ds u) : s.Takes (cs ++ ds) u := by
  refine ⟨by rw [h.1, h'.1, List.append_assoc], ?_⟩
  rw [h'.2, h.2, List.length_append, Nat.add_assoc]

theorem advance (hrest : s.rest = cs ++ ds) : s.Takes cs (s.advance cs.length) := by
  refine ⟨?_, rfl⟩
  change s.rest = cs ++ s.rest.drop cs.length
  rw [hrest, List.drop_left]

theorem rest_eq (h : s.Takes cs t) (hrest : s.rest = cs ++ ds) : t.rest = ds :=
  List.append_cancel_left (h.1.symm.trans hrest)

theorem length_eq (h : s.Takes cs t) : s.rest.length = cs.length + t.rest.length := by
  rw [h.1, List.length_append]

end State.Takes

namespace Parser

variable {α β γ : Type}

theorem bind_assoc (p : Parser α) (f : α → Parser β) (g : β → Parser γ) :
    (p >>= f) >>= g = p >>= fun v => f v >>= g := by
  funext ctx s
  change Parser.bind (Parser.bind p f) g ctx s = Parser.bind p (fun v => Parser.bind (f v) g) ctx s
  rw [Parser.bind, Parser.bind, Parser.bind]
  cases p ctx s <;> rfl

theorem position_bind (f : Nat → Parser α) (ctx : Context) (s : State) :
    (position >>= f) ctx s = f s.pos ctx s :=
  rfl

theorem ahead_bind (f : List Char → Parser α) (ctx : Context) (s : State) :
    (ahead >>= f) ctx s = f s.rest ctx s :=
  rfl

end Parser

section

variable {α β : Type} {P P' : α → State → Prop} {Q : β → State → Prop} {M M' : Prop}
  {F F' : Fault → Prop} {p : Parser α} {ctx : Context} {s : State}

theorem Reply.Sat.mono {r : Reply α} (h : r.Sat P M F) (hP : ∀ v t, P v t → P' v t) (hM : M → M')
    (hF : ∀ cause, F cause → F' cause) : r.Sat P' M' F' := by
  cases r with
  | ok v t => exact hP v t h
  | mismatch => exact hM h
  | fault cause => exact hF cause h

theorem sat_pure {v : α} (h : P v s) : ((pure v : Parser α) ctx s).Sat P M F :=
  h

theorem sat_bind {f : α → Parser β} (hp : (p ctx s).Sat P M F)
    (hf : ∀ v t, P v t → (f v ctx t).Sat Q M F) : ((p >>= f) ctx s).Sat Q M F := by
  change (Parser.bind p f ctx s).Sat Q M F
  rw [Parser.bind]
  cases hreply : p ctx s with
  | ok v t =>
      rw [hreply] at hp
      exact hf v t hp
  | mismatch =>
      rw [hreply] at hp
      exact hp
  | fault =>
      rw [hreply] at hp
      exact hp

-- What is known of the first parser may be stronger than what is known of both.
theorem sat_bind_of {f : α → Parser β} (hp : (p ctx s).Sat P M F) (hM : M → M')
    (hF : ∀ cause, F cause → F' cause) (hf : ∀ v t, P v t → (f v ctx t).Sat Q M' F') :
    ((p >>= f) ctx s).Sat Q M' F' :=
  sat_bind (hp.mono (fun _ _ h => h) hM hF) hf

theorem sat_attempt (h : (p ctx s).Sat P M F) :
    (Parser.attempt p ctx s).Sat (fun o t => (∀ v, o = some v → P v t) ∧
      (o = none → M ∧ s.Takes [] t)) False F := by
  rw [Parser.attempt]
  cases hreply : p ctx s with
  | ok v t =>
      rw [hreply] at h
      refine ⟨?_, fun hnone => absurd hnone (Option.some_ne_none v)⟩
      rintro w ⟨⟩
      exact h
  | mismatch =>
      rw [hreply] at h
      refine ⟨fun v hv => absurd hv.symm (Option.some_ne_none v), fun _ => ⟨h, ?_⟩⟩
      exact .of_eq rfl rfl
  | fault =>
      rw [hreply] at h
      exact h

-- Behind trivia, the text goes on with `c`.
def Shows (c : Char) (cs : List Char) : Prop :=
  ∃ lead after, IsTrivia lead ∧ cs = lead ++ c :: after

-- The trivia `lead` is skipped between two states. A solid character behind trivia is what the
-- second state is at.
structure State.Skips (s : State) (lead : List Char) (t : State) : Prop where
  trivia : IsTrivia lead
  takes : s.Takes lead t
  only : ∀ lead' c after, IsTrivia lead' → IsSolid c → s.rest = lead' ++ c :: after →
    lead' = lead ∧ t.rest = c :: after

theorem skipTrivia_solid {lead after : List Char} {c : Char} (hctx : ctx.newlines = true)
    (hlead : IsTrivia lead) (hc : IsSolid c) (hrest : s.rest = lead ++ c :: after) :
    ∃ crossed, Parser.skipTrivia ctx s =
      .ok crossed { s with pos := s.pos + lead.length, rest := c :: after } := by
  obtain ⟨crossed, hscan⟩ := scan_trivia hlead s.pos false (c :: after)
  refine ⟨crossed, ?_⟩
  rw [Parser.skipTrivia, Parser.skipTriviaWith_eq, hctx, Trivia.skip, hrest, hscan, scan_solid hc]

-- A parser that skips trivia first is judged by what it does behind it. If no solid character
-- stands there, the trivia may be without end, or the text may be at its end.
theorem sat_skipTrivia {f : Bool → Parser α} (hctx : ctx.newlines = true)
    (hsome : ∀ crossed lead t, s.Skips lead t → t.rest ≠ [] → (f crossed ctx t).Sat P M F)
    (hnone : (∀ c, IsSolid c → ¬ Shows c s.rest) →
      M ∧ ∀ crossed t, t.rest = [] → (f crossed ctx t).Sat P M F) :
    ((Parser.skipTrivia >>= f) ctx s).Sat P M F := by
  change (Parser.bind Parser.skipTrivia f ctx s).Sat P M F
  rw [Parser.bind]
  have hsolid : ∀ lead c after, IsTrivia lead → IsSolid c → s.rest = lead ++ c :: after →
      ∃ crossed, Parser.skipTrivia ctx s =
        .ok crossed { s with pos := s.pos + lead.length, rest := c :: after } :=
    fun lead c after hlead hc hrest => skipTrivia_solid hctx hlead hc hrest
  cases hskip : Parser.skipTrivia ctx s with
  | ok crossed t =>
      by_cases hend : t.rest = []
      · refine (hnone ?_).2 crossed t hend
        rintro c hc ⟨lead, after, hlead, hrest⟩
        obtain ⟨crossed', hok⟩ := hsolid lead c after hlead hc hrest
        cases hskip.symm.trans hok
        cases hend
      · rw [Parser.skipTrivia, Parser.skipTriviaWith_eq, hctx] at hskip
        split at hskip
        next pos rest _ hscan =>
          cases hskip
          obtain ⟨lead, hlead, hrest⟩ := exists_trivia_of_scan hscan hend
          refine hsome crossed lead _ ⟨hlead, ⟨hrest, ?_⟩, ?_⟩ hend
          · have hpos := scan_position hscan
            rw [hrest, List.length_append] at hpos
            change pos = s.pos + lead.length
            omega
          · intro lead' c after hlead' hc hrest'
            obtain ⟨crossed', hok⟩ := hsolid lead' c after hlead' hc hrest'
            rw [Parser.skipTrivia, Parser.skipTriviaWith_eq, hctx, hscan] at hok
            obtain ⟨-, hstate⟩ := Reply.ok.inj hok
            have hsame : rest = c :: after := congrArg State.rest hstate
            have hall : lead' ++ rest = lead ++ rest := by rw [← hrest, hrest', hsame]
            exact ⟨List.append_cancel_right hall, hsame⟩
        next => cases hskip
  | mismatch =>
      refine (hnone ?_).1
      rintro c hc ⟨lead, after, hlead, hrest⟩
      obtain ⟨crossed', hok⟩ := hsolid lead c after hlead hc hrest
      cases hskip.symm.trans hok
  | fault =>
      rw [Parser.skipTrivia, Parser.skipTriviaWith_eq] at hskip
      split at hskip <;> cases hskip

-- The same where a solid character is known to stand behind the trivia.
theorem sat_skipTrivia_solid {f : Bool → Parser α} {lead after : List Char} {c : Char}
    (hctx : ctx.newlines = true) (hlead : IsTrivia lead) (hc : IsSolid c)
    (hrest : s.rest = lead ++ c :: after)
    (h : ∀ crossed t, s.Takes lead t → t.rest = c :: after → (f crossed ctx t).Sat P M F) :
    ((Parser.skipTrivia >>= f) ctx s).Sat P M F := by
  obtain ⟨crossed, hskip⟩ := skipTrivia_solid hctx hlead hc hrest
  change (Parser.bind Parser.skipTrivia f ctx s).Sat P M F
  rw [Parser.bind, hskip]
  exact h crossed _ ⟨hrest, rfl⟩ rfl

theorem symbol_spec {text : String} {c : Char} (htext : text.toList = [c]) (hc : IsSolid c)
    (hctx : ctx.newlines = true) :
    (Parser.symbol text ctx s).Sat (fun _ t => ∃ lead, IsTrivia lead ∧ s.Takes (lead ++ [c]) t)
      (¬ Shows c s.rest) (fun _ => False) := by
  have hlength : text.length = [c].length := by rw [← htext, String.length_toList]
  refine sat_skipTrivia hctx (fun crossed lead t hskips _ => ?_)
    fun hnone => ⟨hnone c hc, fun crossed t hend => ?_⟩
  · change ((if text.toList.isPrefixOf t.rest then Parser.advance text.length
      else Parser.fail s!"'{text}'" : Parser Unit) ctx t).Sat _ _ _
    rw [htext]
    split
    next hfront =>
      obtain ⟨after, hafter⟩ := List.isPrefixOf_iff_prefix.mp hfront
      rw [hlength]
      exact ⟨lead, hskips.trivia, hskips.takes.trans (.advance hafter.symm)⟩
    next hfront =>
      rintro ⟨lead', after, hlead', hrest⟩
      obtain ⟨-, hshown⟩ := hskips.only lead' c after hlead' hc hrest
      rw [hshown] at hfront
      simp at hfront
  · change ((if text.toList.isPrefixOf t.rest then Parser.advance text.length
      else Parser.fail s!"'{text}'" : Parser Unit) ctx t).Sat _ _ _
    rw [htext, hend, if_neg (by simp)]
    exact hnone c hc

-- A symbol that stands behind trivia is read.
theorem symbol_shown {text : String} {c : Char} (htext : text.toList = [c]) (hc : IsSolid c)
    (hctx : ctx.newlines = true) {lead after : List Char} (hlead : IsTrivia lead)
    (hrest : s.rest = lead ++ c :: after) :
    (Parser.symbol text ctx s).Sat (fun _ t => s.Takes (lead ++ [c]) t) False (fun _ => False) := by
  refine (symbol_spec htext hc hctx).mono ?_ (fun h => h ⟨lead, after, hlead, hrest⟩) fun _ h => h
  rintro _ t ⟨lead', hlead', htakes⟩
  have heq : lead ++ c :: after = lead' ++ c :: t.rest := by
    rw [← hrest, htakes.1, List.append_assoc]
    rfl
  rw [(hlead.unique hlead' hc hc heq).1]
  exact htakes

theorem trySymbol_spec {text : String} {c : Char} (htext : text.toList = [c]) (hc : IsSolid c)
    (hctx : ctx.newlines = true) :
    (Parser.trySymbol text ctx s).Sat
      (fun found t => (found = true → ∃ lead, IsTrivia lead ∧ s.Takes (lead ++ [c]) t) ∧
        (found = false → ¬ Shows c s.rest ∧ s.Takes [] t)) False (fun _ => False) := by
  refine sat_bind (sat_attempt (symbol_spec htext hc hctx)) ?_
  rintro o t ⟨hsome, hnone⟩
  cases o with
  | none => exact sat_pure ⟨fun h => absurd h Bool.false_ne_true, fun _ => hnone rfl⟩
  | some v => exact sat_pure ⟨fun _ => hsome v rfl, fun h => absurd h.symm Bool.false_ne_true⟩

theorem trySymbol_shown {text : String} {c : Char} (htext : text.toList = [c]) (hc : IsSolid c)
    (hctx : ctx.newlines = true) {lead after : List Char} (hlead : IsTrivia lead)
    (hrest : s.rest = lead ++ c :: after) :
    (Parser.trySymbol text ctx s).Sat (fun found t => found = true ∧ s.Takes (lead ++ [c]) t) False
      (fun _ => False) := by
  refine sat_bind (sat_attempt (symbol_shown htext hc hctx hlead hrest)) ?_
  rintro o t ⟨hsome, hnone⟩
  cases o with
  | none => exact (hnone rfl).1.elim
  | some v => exact sat_pure ⟨rfl, hsome v rfl⟩

theorem trySymbol_absent {text : String} {c : Char} (htext : text.toList = [c]) (hc : IsSolid c)
    (hctx : ctx.newlines = true) (habsent : ¬ Shows c s.rest) :
    (Parser.trySymbol text ctx s).Sat (fun found t => found = false ∧ s.Takes [] t) False
      (fun _ => False) := by
  refine (trySymbol_spec htext hc hctx).mono ?_ id fun _ h => h
  rintro found t ⟨hfound, hnot⟩
  cases found with
  | false => exact ⟨rfl, (hnot rfl).2⟩
  | true =>
      obtain ⟨lead, hlead, htakes⟩ := hfound rfl
      refine absurd ⟨lead, t.rest, hlead, ?_⟩ habsent
      rw [htakes.1, List.append_assoc]
      rfl

-- Behind trivia there is one character only.
theorem not_shows {lead after : List Char} {c d : Char} (hlead : IsTrivia lead) (hc : IsSolid c)
    (hd : IsSolid d) (hne : c ≠ d) : ¬ Shows d (lead ++ c :: after) := by
  rintro ⟨lead', after', hlead', heq⟩
  exact hne (List.cons.inj (hlead.unique hlead' hc hd heq).2).1

end

end CardLore
