import CardLore.Statement.Parser

namespace CardLore

theorem Parser.skipTriviaWith_eq (newlines : Bool) (ctx : Context) (s : State) :
    skipTriviaWith newlines ctx s = match Trivia.skip newlines s.pos s.rest with
      | .stopped pos rest crossed => .ok crossed { s with pos, rest }
      | .unclosed start => .mismatch start "'*)' to close block comment"
          (s.furthest.record start "'*)' to close block comment") := by
  rw [skipTriviaWith]
  cases Trivia.skip newlines s.pos s.rest <;> rfl

section

variable {α β : Type} {p : Parser α}

theorem bind_eq_ok_iff {f : α → Parser β} {ctx : Context} {s last : State} {w : β} :
    (p >>= f) ctx s = .ok w last ↔
      ∃ v next, p ctx s = .ok v next ∧ f v ctx next = .ok w last := by
  change Parser.bind p f ctx s = _ ↔ _
  rw [Parser.bind]
  cases p ctx s with
  | ok v next =>
      refine ⟨fun h => ⟨v, next, rfl, h⟩, ?_⟩
      rintro ⟨_, _, ⟨⟩, h⟩
      exact h
  | mismatch => exact ⟨nofun, by rintro ⟨_, _, ⟨⟩, _⟩⟩
  | fault => exact ⟨nofun, by rintro ⟨_, _, ⟨⟩, _⟩⟩

theorem bind_of_ok {f : α → Parser β} {ctx : Context} {s t : State} {v : α}
    (h : p ctx s = .ok v t) : (p >>= f) ctx s = f v ctx t := by
  change Parser.bind p f ctx s = _
  rw [Parser.bind, h]

theorem bind_eq_mismatch_iff {f : α → Parser β} {ctx : Context} {s : State} {pos : Nat}
    {expected : String} {furthest : Furthest} :
    (p >>= f) ctx s = .mismatch pos expected furthest ↔
      p ctx s = .mismatch pos expected furthest ∨
        ∃ v next, p ctx s = .ok v next ∧ f v ctx next = .mismatch pos expected furthest := by
  change Parser.bind p f ctx s = _ ↔ _
  rw [Parser.bind]
  cases p ctx s with
  | ok v next =>
      refine ⟨fun h => .inr ⟨v, next, rfl, h⟩, ?_⟩
      rintro (h | ⟨_, _, ⟨⟩, h⟩)
      · cases h
      · exact h
  | mismatch => simp
  | fault => simp

-- A part that may be left out has a default in its place.
theorem getD_of_forall_mem {P : α → Prop} {o : Option α} (h : ∀ v ∈ o, P v) (default : α)
    (hdefault : P default) : P (o.getD default) := by
  cases o with
  | none => exact hdefault
  | some v => exact h v rfl

theorem attempt_ne_mismatch (p : Parser α) (ctx : Context) (s : State) (pos : Nat)
    (expected : String) (furthest : Furthest) :
    Parser.attempt p ctx s ≠ .mismatch pos expected furthest := by
  rw [Parser.attempt]
  cases p ctx s <;> nofun

theorem manyUpTo_ne_mismatch (item : Parser α) (bound : Nat) (ctx : Context) (s : State) (pos : Nat)
    (expected : String) (furthest : Furthest) :
    Parser.manyUpTo item bound ctx s ≠ .mismatch pos expected furthest := by
  induction bound generalizing s with
  | zero => nofun
  | succ bound ih =>
      intro h
      rcases bind_eq_mismatch_iff.mp h with h | ⟨o, next, -, h⟩
      · exact attempt_ne_mismatch item ctx s pos expected furthest h
      · cases o with
        | none => cases h
        | some v =>
            rcases bind_eq_mismatch_iff.mp h with h | ⟨vs, last, -, h⟩
            · exact ih next h
            · cases h

theorem many_ne_mismatch (item : Parser α) (ctx : Context) (s : State) (pos : Nat)
    (expected : String) (furthest : Furthest) :
    Parser.many item ctx s ≠ .mismatch pos expected furthest :=
  manyUpTo_ne_mismatch item (s.rest.length + 1) ctx s pos expected furthest

end

end CardLore
