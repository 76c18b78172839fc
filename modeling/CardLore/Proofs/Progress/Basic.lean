import CardLore.Proofs.Course.Layout

namespace CardLore

-- The reading has come to some place in the source, and what follows is ahead.
structure State.In (source : List Char) (s : State) : Prop where
  pos_le : s.pos ≤ source.length
  rest_eq : s.rest = source.drop s.pos

namespace State

variable {source cs : List Char} {s t : State}

theorem in_ofSource (source : List Char) : (State.ofSource source).In source :=
  ⟨Nat.zero_le _, rfl⟩

theorem In.length_eq (h : s.In source) : s.pos + s.rest.length = source.length := by
  have hle := h.pos_le
  rw [h.rest_eq, List.length_drop]
  omega

theorem In.takes (h : s.In source) (htakes : s.Takes cs t) : t.In source := by
  have hlength := h.length_eq
  rw [htakes.length_eq] at hlength
  have hpos := htakes.2
  refine ⟨by omega, ?_⟩
  rw [hpos, ← List.drop_drop, ← h.rest_eq, htakes.1, List.drop_left]

theorem In.furthest (h : s.In source) (furthest : Furthest) : { s with furthest }.In source :=
  ⟨h.pos_le, h.rest_eq⟩

end State

-- In a source the parser stays inside and, if it gives a value, has come on by at least as many
-- characters as belong to it.
def Parser.Gains {α : Type} (source : List Char) (gain : α → Nat) (p : Parser α) : Prop :=
  ∀ ⦃ctx : Context⦄ ⦃s t : State⦄ ⦃v : α⦄, s.In source → p ctx s = .ok v t →
    t.In source ∧ s.pos + gain v ≤ t.pos

-- The parser stays inside of the source.
def Parser.Stays {α : Type} (source : List Char) (p : Parser α) : Prop :=
  p.Gains source fun _ => 0

-- Besides, it never succeeds without having come on.
def Parser.GoesOn {α : Type} (source : List Char) (p : Parser α) : Prop :=
  p.Gains source fun _ => 1

section

variable {α β : Type} {source : List Char} {e : Reach} {p q : Parser α} {f : α → Parser β}
  {gain gain' : α → Nat}

-- All that takes a course through its text stays inside of it.
theorem Tracks.stays (h : Tracks e p) (source : List Char) : p.Stays source := by
  intro ctx s t v hs hok
  obtain ⟨cs, htakes⟩ := (h hok).exists_takes
  exact ⟨hs.takes htakes, (h hok).pos_le⟩

theorem Tracks.goesOn (h : Tracks .closed p) (source : List Char) : p.GoesOn source := by
  intro ctx s t v hs hok
  obtain ⟨cs, hne, htakes⟩ := (h hok).exists_takes_cons
  have hlength := List.length_pos_of_ne_nil hne
  have hpos := htakes.2
  exact ⟨hs.takes htakes, by dsimp only; omega⟩

namespace Parser.Gains

theorem mono (h : p.Gains source gain) (hle : ∀ v, gain' v ≤ gain v) : p.Gains source gain' := by
  intro ctx s t v hs hok
  obtain ⟨ht, hpos⟩ := h hs hok
  exact ⟨ht, (Nat.add_le_add_left (hle v) _).trans hpos⟩

theorem pure {v : α} (h : gain v = 0) : (Pure.pure v : Parser α).Gains source gain := by
  intro ctx s t w hs hok
  cases hok
  exact ⟨hs, by rw [h, Nat.add_zero]⟩

-- What the first part has gained need not be gained by the second one.
theorem bind {m : β → Nat} (hp : p.Gains source gain)
    (hf : ∀ v, (f v).Gains source fun w => m w - gain v) : (p >>= f).Gains source m := by
  intro ctx s u w hs hok
  obtain ⟨v, t, hv, hw⟩ := bind_eq_ok_iff.mp hok
  obtain ⟨ht, hpos⟩ := hp hs hv
  obtain ⟨hu, hpos'⟩ := hf v ht hw
  dsimp only at hpos'
  exact ⟨hu, by omega⟩

theorem ite {φ : Prop} [Decidable φ] (hp : φ → p.Gains source gain)
    (hq : ¬ φ → q.Gains source gain) : (if φ then p else q).Gains source gain := by
  by_cases hφ : φ
  · rw [if_pos hφ]
    exact hp hφ
  · rw [if_neg hφ]
    exact hq hφ

theorem fail (expected : String) : (Parser.fail expected : Parser α).Gains source gain := by
  intro ctx s t v hs hok
  cases hok

theorem attempt (h : p.Gains source gain) :
    (Parser.attempt p).Gains source fun o => (o.map gain).getD 0 := by
  intro ctx s t o hs hok
  rcases attempt_eq_ok hok with ⟨v, rfl, hv⟩ | ⟨_, _, furthest, rfl, -, rfl⟩
  · exact h hs hv
  · exact ⟨hs.furthest furthest, Nat.le_refl _⟩

theorem choice {others : List (Parser α)} (hp : ∀ q ∈ p :: others, q.Gains source gain) :
    (Parser.choice p others).Gains source gain := by
  intro ctx s t v hs hok
  obtain ⟨q, hq, furthest, hv⟩ := choice_eq_ok hok
  have hgain := hp q hq (hs.furthest furthest) hv
  exact hgain

end Parser.Gains

namespace Parser

theorem GoesOn.stays (h : p.GoesOn source) : p.Stays source :=
  h.mono fun _ => Nat.zero_le 1

-- What follows need not come on any more.
theorem GoesOn.keep (hp : p.GoesOn source) (hf : ∀ v, (f v).Stays source) :
    (p >>= f).GoesOn source :=
  hp.bind hf

theorem Stays.bind (hp : p.Stays source) (hf : ∀ v, (f v).Stays source) : (p >>= f).Stays source :=
  Gains.bind hp hf

theorem stays_ahead : ahead.Stays source := by
  intro ctx s t cs hs hok
  cases hok
  exact ⟨hs, Nat.le_refl _⟩

theorem stays_skipTriviaWith (newlines : Bool) : (skipTriviaWith newlines).Stays source :=
  (Tracks.of fun _ => .skipTriviaWith newlines).stays source

theorem stays_skipTrivia : skipTrivia.Stays source :=
  fun _ _ _ _ hs hok => stays_skipTriviaWith _ hs hok

theorem stays_tokenStart : tokenStart.Stays source :=
  (Tracks.of fun _ => .tokenStart).stays source

-- Looking ahead one stays where one is.
theorem stays_lookahead (p : Parser α) : (lookahead p).Stays source := by
  intro ctx s t v hs hok
  rw [lookahead] at hok
  generalize p ctx s = r at hok
  cases r with
  | ok v next =>
      cases hok
      exact ⟨hs.furthest next.furthest, Nat.le_refl _⟩
  | mismatch | fault => cases hok

-- No text that is shorter than the word becomes it in lower case.
def KeepsLength (word : String) : Prop :=
  ∀ cs : List Char, Text.lower (Text.ofChars cs) = Text.ofString word → word.length ≤ cs.length

theorem keepsLength_of_mem {word : String} (h : word ∈ keywords) : KeepsLength word := by
  intro cs hlower
  have hspells : Spells word cs :=
    lowers_of_lowerFrom [] (fun _ hd => isLower_of_mem_keyword h hd) hlower
  rw [hspells.length_eq, String.length_toList]

-- Some characters are read if they stand next.
theorem gains_advance {φ : List Char → Prop} [DecidablePred φ] {n : Nat} {expected : String}
    (h : ∀ cs, φ cs → n ≤ cs.length) :
    (do let _ ← skipTrivia
        let cs ← ahead
        if φ cs then advance n else fail expected : Parser Unit).Gains source fun _ => n := by
  refine Gains.bind stays_skipTrivia fun _ => ?_
  intro ctx s t v hs hok
  obtain ⟨cs, next, hcs, hok⟩ := bind_eq_ok_iff.mp hok
  cases hcs
  by_cases hφ : φ s.rest
  · rw [if_pos hφ] at hok
    cases hok
    have htakes : s.Takes (s.rest.take n) (s.advance n) := by
      refine ⟨(List.take_append_drop n s.rest).symm, ?_⟩
      rw [List.length_take, Nat.min_eq_left (h _ hφ)]
      rfl
    exact ⟨hs.takes htakes, Nat.le_refl _⟩
  · rw [if_neg hφ] at hok
    cases hok

theorem gains_symbol (text : String) : (symbol text).Gains source fun _ => text.length := by
  refine gains_advance fun cs hfront => ?_
  have hle := (List.isPrefixOf_iff_prefix.mp hfront).length_le
  rwa [String.length_toList] at hle

theorem gains_keyword {word : String} (h : KeepsLength word) :
    (keyword word).Gains source fun _ => word.length := by
  refine gains_advance fun cs hmatches => ?_
  have hle := h _ hmatches.1
  rw [List.length_take] at hle
  omega

theorem goesOn_symbol {text : String} (h : text ≠ "") : (symbol text).GoesOn source :=
  (gains_symbol text).mono fun _ => Nat.pos_of_ne_zero (mt String.length_eq_zero_iff.mp h)

theorem goesOn_keyword {word : String} (hne : word ≠ "") (h : KeepsLength word) :
    (keyword word).GoesOn source :=
  (gains_keyword h).mono fun _ => Nat.pos_of_ne_zero (mt String.length_eq_zero_iff.mp hne)

theorem Stays.attempt (h : p.Stays source) : (Parser.attempt p).Stays source :=
  (Gains.attempt h).mono fun _ => Nat.zero_le _

-- What is looked for and found takes a character.
theorem GoesOn.found {p : Parser α} (hp : p.GoesOn source) :
    (do return (← attempt p).isSome : Parser Bool).Gains source Bool.toNat := by
  refine Gains.bind (Gains.attempt hp) fun o => ?_
  cases o with
  | none => exact .pure rfl
  | some v => exact .pure rfl

theorem gains_symbolOrKeyword {text word : String} (htext : text ≠ "") (hword : word ≠ "")
    (h : KeepsLength word) : (symbolOrKeyword text word).Gains source Bool.toNat := by
  refine Gains.bind (goesOn_symbol htext).found fun found => ?_
  cases found with
  | true => exact .pure rfl
  | false => exact (goesOn_keyword hword h).found

end Parser

end

end CardLore
