import CardLore.Proofs.Writing.Lexeme
import CardLore.Statement.Block

namespace CardLore

-- Where values may nest `limit` deep, the parser gives a value with `P` on every text of `ls` and
-- leaves a text of `rest`.
def Reads {α : Type} (limit : Nat) (p : Parser α) (newlines : Bool) (ls rest : List Lexeme)
    (P : α → Prop) : Prop :=
  ∀ ctx s, ctx.newlines = newlines ∧ ctx.limit = limit → Written ls s.rest →
    ∃ value next, p ctx s = .ok value next ∧ Written rest next.rest ∧ P value

-- The parser mismatches on every text of `ls`.
def Mismatches {α : Type} (limit : Nat) (p : Parser α) (newlines : Bool) (ls : List Lexeme) : Prop :=
  ∀ ctx s, ctx.newlines = newlines ∧ ctx.limit = limit → Written ls s.rest →
    ∃ pos expected furthest, p ctx s = .mismatch pos expected furthest

section

variable {α β : Type} {limit : Nat} {newlines : Bool} {ls mid rest : List Lexeme} {P : α → Prop} {Q : β → Prop}

theorem Reads.mono {p : Parser α} {P' : α → Prop} (h : Reads limit p newlines ls rest P)
    (himp : ∀ v, P v → P' v) : Reads limit p newlines ls rest P' := by
  intro ctx s hctx hs
  obtain ⟨v, next, hv, hnext, hP⟩ := h ctx s hctx hs
  exact ⟨v, next, hv, hnext, himp v hP⟩

theorem Reads.pure {v : α} (h : P v) : Reads limit (pure v : Parser α) newlines ls ls P :=
  fun _ s _ hs => ⟨v, s, rfl, hs, h⟩

theorem Reads.bind {p : Parser α} {f : α → Parser β} (hp : Reads limit p newlines ls mid P)
    (hf : ∀ v, P v → Reads limit (f v) newlines mid rest Q) : Reads limit (p >>= f) newlines ls rest Q := by
  intro ctx s hctx hs
  obtain ⟨v, next, hv, hnext, hP⟩ := hp ctx s hctx hs
  obtain ⟨w, last, hw, hlast, hQ⟩ := hf v hP ctx next hctx hnext
  refine ⟨w, last, ?_, hlast, hQ⟩
  change Parser.bind p f ctx s = _
  rw [Parser.bind, hv]
  exact hw

theorem Mismatches.bind {p : Parser α} {f : α → Parser β} (hp : Mismatches limit p newlines ls) :
    Mismatches limit (p >>= f) newlines ls := by
  intro ctx s hctx hs
  obtain ⟨pos, expected, furthest, hv⟩ := hp ctx s hctx hs
  refine ⟨pos, expected, furthest, ?_⟩
  change Parser.bind p f ctx s = _
  rw [Parser.bind, hv]

theorem Mismatches.after {p : Parser α} {f : α → Parser β} (hp : Reads limit p newlines ls mid P)
    (hf : ∀ v, P v → Mismatches limit (f v) newlines mid) : Mismatches limit (p >>= f) newlines ls := by
  intro ctx s hctx hs
  obtain ⟨v, next, hv, hnext, hP⟩ := hp ctx s hctx hs
  obtain ⟨pos, expected, furthest, hw⟩ := hf v hP ctx next hctx hnext
  refine ⟨pos, expected, furthest, ?_⟩
  change Parser.bind p f ctx s = _
  rw [Parser.bind, hv]
  exact hw

theorem Reads.attempt {p : Parser α} (h : Reads limit p newlines ls rest P) :
    Reads limit (Parser.attempt p) newlines ls rest fun o => ∃ v, o = some v ∧ P v := by
  intro ctx s hctx hs
  obtain ⟨v, next, hv, hnext, hP⟩ := h ctx s hctx hs
  exact ⟨some v, next, by rw [Parser.attempt, hv], hnext, v, rfl, hP⟩

theorem Mismatches.attempt {p : Parser α} (h : Mismatches limit p newlines ls) :
    Reads limit (Parser.attempt p) newlines ls ls (· = none) := by
  intro ctx s hctx hs
  obtain ⟨pos, expected, furthest, hv⟩ := h ctx s hctx hs
  exact ⟨none, { s with furthest }, by rw [Parser.attempt, hv], hs, rfl⟩

theorem Reads.lookahead {p : Parser α} (h : Reads limit p newlines ls mid P) :
    Reads limit (Parser.lookahead p) newlines ls ls P := by
  intro ctx s hctx hs
  obtain ⟨v, next, hv, _, hP⟩ := h ctx s hctx hs
  exact ⟨v, { s with furthest := next.furthest }, by rw [Parser.lookahead, hv], hs, hP⟩

theorem Reads.withNewlines {p : Parser α} {inside : Bool} (h : Reads limit p inside ls rest P) :
    Reads limit (Parser.withNewlines inside p) newlines ls rest P :=
  fun ctx s hctx hs => h { ctx with newlines := inside } s ⟨rfl, hctx.2⟩ hs

theorem Reads.choice_first {p : Parser α} (h : Reads limit p newlines ls rest P)
    (others : List (Parser α)) : Reads limit (Parser.choice p others) newlines ls rest P := by
  intro ctx s hctx hs
  obtain ⟨v, next, hv, hnext, hP⟩ := h ctx s hctx hs
  refine ⟨v, next, ?_, hnext, hP⟩
  cases others with
  | nil => exact hv
  | cons _ _ => simp only [Parser.choice, hv]

theorem Reads.choice_next {p q : Parser α} {others : List (Parser α)}
    (hp : Mismatches limit p newlines ls) (h : Reads limit (Parser.choice q others) newlines ls rest P) :
    Reads limit (Parser.choice p (q :: others)) newlines ls rest P := by
  intro ctx s hctx hs
  obtain ⟨pos, expected, furthest, hv⟩ := hp ctx s hctx hs
  obtain ⟨v, next, hw, hnext, hP⟩ := h ctx { s with furthest } hctx hs
  exact ⟨v, next, by simp only [Parser.choice, hv, hw], hnext, hP⟩

-- Among alternatives of one form, the one that reads is reached if no other one matches.
theorem Reads.choice_map {f : β → Parser α} {x y : β} {ys : List β} (others : List (Parser α))
    (hx : x ∈ y :: ys) (hread : Reads limit (f x) newlines ls rest P)
    (hmiss : ∀ z ∈ y :: ys, z ≠ x → Mismatches limit (f z) newlines ls) :
    Reads limit (Parser.choice (f y) (ys.map f ++ others)) newlines ls rest P := by
  induction ys generalizing y with
  | nil =>
      obtain rfl := List.mem_singleton.mp hx
      exact .choice_first hread others
  | cons z ys ih =>
      obtain ⟨hmissy, hmissys⟩ := List.forall_mem_cons.mp hmiss
      by_cases hy : y = x
      · subst hy
        exact .choice_first hread _
      · have hys := (List.mem_cons.mp hx).resolve_left (Ne.symm hy)
        exact .choice_next (hmissy hy) (ih hys hmissys)

theorem Mismatches.choice {p : Parser α} {others : List (Parser α)}
    (hp : Mismatches limit p newlines ls) (hothers : ∀ q ∈ others, Mismatches limit q newlines ls) :
    Mismatches limit (Parser.choice p others) newlines ls := by
  induction others generalizing p with
  | nil => exact hp
  | cons q others ih =>
      obtain ⟨hq, hothers⟩ := List.forall_mem_cons.mp hothers
      intro ctx s hctx hs
      obtain ⟨pos, expected, furthest, hv⟩ := hp ctx s hctx hs
      obtain ⟨pos', expected', furthest', hw⟩ := ih hq hothers ctx { s with furthest } hctx hs
      exact ⟨pos', expected', furthest', by simp only [Parser.choice, hv, hw]⟩

theorem Mismatches.choice_map {f : β → Parser α} (y : β) (ys : List β)
    (h : ∀ z, Mismatches limit (f z) newlines ls) :
    Mismatches limit (Parser.choice (f y) (ys.map f)) newlines ls :=
  .choice (h y) (List.forall_mem_map.mpr fun z _ => h z)

-- Places of the source play no part in what is read.
theorem reads_spanFrom (start : Nat) : Reads limit (Parser.spanFrom start) newlines ls ls fun _ => True :=
  fun ctx s _ hs => ⟨ctx.index.span ctx.file start s.pos, s, rfl, hs, trivial⟩

end

-- Every lexeme has at least one character.
theorem Lexeme.Spelled.ne_nil {l : Lexeme} {text : List Char} (h : l.Spelled text) : text ≠ [] := by
  cases l with
  | word w =>
      have hwords : ∀ w ∈ keywords, w.toList ≠ [] := by decide
      rintro rfl
      exact hwords w h.1 h.2.symm
  | symbol s =>
      have hsymbols : ∀ s ∈ symbols, s.toList ≠ [] := by decide
      rw [h.2]
      exact hsymbols s h.1
  | key k =>
      rintro rfl
      exact h.1.1 (congrArg Key.text h.2)
  | text t =>
      rw [h]
      exact List.cons_ne_nil _ _
  | number n =>
      rcases h with ⟨_, h⟩ | ⟨_, digits, rfl, _⟩
      · exact h.nonempty
      · exact List.cons_ne_nil _ _
  | percent p =>
      obtain ⟨digits, rfl, _⟩ := h
      simp
  | lineEnd => cases h

theorem Written.length_le {ls : List Lexeme} {cs : List Char} (h : Written ls cs) :
    ls.length ≤ cs.length := by
  induction h with
  | nil => exact Nat.le_refl _
  | blank _ ih =>
      rw [List.length_cons]
      omega
  | lineEnd _ ih =>
      rw [List.length_cons, List.length_cons]
      omega
  | lexeme hl _ _ ih =>
      have hpos := List.length_pos_iff.mpr hl.ne_nil
      rw [List.length_cons, List.length_append]
      omega

end CardLore
