import CardLore.Proofs.Reading.Token
import CardLore.Proofs.Writing.Printer
import CardLore.Statement.Parser
import Mathlib.Data.List.Forall2

namespace CardLore

section

variable {α β : Type} {limit : Nat} {newlines : Bool} {ls mid rest : List Lexeme} {P : α → Prop}

theorem reads_manyUpTo {item : Parser α} {write : β → List Lexeme} {R : β → α → Prop}
    (hstop : Mismatches limit item newlines rest) {xs : List β}
    (hitem : ∀ x ∈ xs, ∀ tail, Reads limit item newlines (write x ++ tail) tail (R x)) {bound : Nat}
    (hbound : xs.length < bound) :
    Reads limit (Parser.manyUpTo item bound) newlines (xs.flatMap write ++ rest) rest
      (List.Forall₂ R xs) := by
  induction xs generalizing bound with
  | nil =>
      obtain ⟨bound, rfl⟩ := Nat.exists_eq_add_one.mpr hbound
      refine .bind hstop.attempt fun o ho => ?_
      subst ho
      exact .pure .nil
  | cons x xs ih =>
      obtain ⟨bound, rfl⟩ := Nat.exists_eq_add_one.mpr (Nat.zero_lt_of_lt hbound)
      obtain ⟨hx, hxs⟩ := List.forall_mem_cons.mp hitem
      rw [List.flatMap_cons, List.append_assoc]
      refine .bind (hx _).attempt fun o ⟨v, ho, hv⟩ => ?_
      subst ho
      refine .bind (ih hxs (Nat.lt_of_succ_lt_succ hbound)) fun vs hvs => ?_
      exact .pure (.cons hv hvs)

-- Each item has a lexeme, so there are fewer items than the characters that bound them.
theorem length_le_flatMap (write : β → List Lexeme) (xs : List β) (h : ∀ x ∈ xs, write x ≠ []) :
    xs.length ≤ (xs.flatMap write).length := by
  induction xs with
  | nil => exact Nat.le_refl _
  | cons x xs ih =>
      obtain ⟨hx, hxs⟩ := List.forall_mem_cons.mp h
      have hpos := List.length_pos_iff.mpr hx
      have hrest := ih hxs
      rw [List.flatMap_cons, List.length_append, List.length_cons]
      omega

theorem reads_many {item : Parser α} {write : β → List Lexeme} {R : β → α → Prop} {xs : List β}
    (hne : ∀ x ∈ xs, write x ≠ [])
    (hitem : ∀ x ∈ xs, ∀ tail, Reads limit item newlines (write x ++ tail) tail (R x))
    (hstop : Mismatches limit item newlines rest) :
    Reads limit (Parser.many item) newlines (xs.flatMap write ++ rest) rest (List.Forall₂ R xs) := by
  intro ctx s hctx hs
  refine reads_manyUpTo hstop hitem ?_ ctx s hctx hs
  have hlength := hs.length_le
  have hitems := length_le_flatMap write xs hne
  rw [List.length_append] at hlength
  omega

-- Each item is read by a parser that knows the items before it.
def ReadsEach (limit : Nat) (item : List α → Parser α) (write : β → List Lexeme) (R : β → α → Prop)
    (xs : List β) : Prop :=
  ∀ before x after, xs = before ++ x :: after → ∀ seen, List.Forall₂ R before seen →
    ∀ tail, Reads limit (item seen) true (write x ++ tail) tail (R x)

-- The loop has read the items of `before`, and `seen` is what it made of them.
theorem reads_delimitedFrom {item : List α → Parser α} {close : String} {write : β → List Lexeme}
    {R : β → α → Prop} {all : List β} (hclose : close ∈ symbols)
    (hcomma : close.toList.isPrefixOf [','] = false) (hitem : ReadsEach limit item write R all)
    {before : List β} {x : β} {xs : List β} (hall : all = before ++ x :: xs) {seen : List α}
    (hseen : List.Forall₂ R before seen) {bound : Nat} (hbound : xs.length < bound) :
    Reads limit (Parser.delimitedFrom item close bound seen) true
      (write x ++ ((xs.map write).flatMap (.symbol "," :: ·) ++ .symbol close :: rest)) rest
      (List.Forall₂ R all) := by
  induction xs generalizing before x seen bound with
  | nil =>
      obtain ⟨bound, rfl⟩ := Nat.exists_eq_add_one.mpr hbound
      refine .bind (hitem before x [] hall seen hseen _) fun v hv => ?_
      refine .bind (reads_trySymbol close) fun b hb => ?_
      subst hb
      rw [hall]
      exact .pure (List.rel_append hseen (.cons hv .nil))
  | cons y ys ih =>
      obtain ⟨bound, rfl⟩ := Nat.exists_eq_add_one.mpr (Nat.zero_lt_of_lt hbound)
      rw [List.map_cons, List.flatMap_cons, List.append_assoc, List.cons_append]
      refine .bind (hitem before x (y :: ys) hall seen hseen _) fun v hv => ?_
      refine .bind (reads_trySymbol_false hclose hcomma) fun b hb => ?_
      subst hb
      refine .bind (reads_symbol ",") fun _ _ => ?_
      have hall : all = (before ++ [x]) ++ y :: ys := by rw [hall, List.append_assoc]; rfl
      exact ih hall
        (List.rel_append hseen (.cons hv .nil)) (Nat.lt_of_succ_lt_succ hbound)

theorem reads_delimitedWith {item : List α → Parser α} {close : String} {write : β → List Lexeme}
    {R : β → α → Prop} {xs : List β} (hclose : close ∈ symbols)
    (hcomma : close.toList.isPrefixOf [','] = false)
    (hhead : ∀ x ∈ xs, ∀ tail, startsWithSymbol close (next true (write x ++ tail)) = false)
    (hitem : ReadsEach limit item write R xs) :
    Reads limit (Parser.delimitedWith item close) newlines
      (commaSeparated close (xs.map write) ++ rest) rest (List.Forall₂ R xs) := by
  refine Reads.withNewlines ?_
  cases xs with
  | nil =>
      refine .bind (reads_trySymbol close) fun b hb => ?_
      subst hb
      exact .pure .nil
  | cons x xs =>
      rw [List.map_cons, commaSeparated, List.append_assoc, List.append_assoc]
      refine .bind (reads_trySymbol_false hclose (hhead x List.mem_cons_self _)) fun b hb => ?_
      subst hb
      intro ctx s hctx hs
      refine reads_delimitedFrom hclose hcomma hitem rfl .nil ?_ ctx s hctx hs
      have hlength := hs.length_le
      have hitems := length_le_flatMap (Lexeme.symbol "," :: ·) (xs.map write)
        fun _ _ => List.cons_ne_nil _ _
      rw [List.length_append, List.length_append] at hlength
      rw [List.length_map] at hitems
      omega

theorem reads_delimited {item : Parser α} {close : String} {write : β → List Lexeme}
    {R : β → α → Prop} {xs : List β} (hclose : close ∈ symbols)
    (hcomma : close.toList.isPrefixOf [','] = false)
    (hhead : ∀ x ∈ xs, ∀ tail, startsWithSymbol close (next true (write x ++ tail)) = false)
    (hitem : ∀ x ∈ xs, ∀ tail, Reads limit item true (write x ++ tail) tail (R x)) :
    Reads limit (Parser.delimited item close) newlines
      (commaSeparated close (xs.map write) ++ rest) rest (List.Forall₂ R xs) := by
  refine reads_delimitedWith hclose hcomma hhead fun before x after hxs _ _ tail => hitem x ?_ tail
  rw [hxs]
  exact List.mem_append_cons_self

theorem Reads.located {p : Parser α} (h : Reads limit p newlines (next newlines ls) rest P) :
    Reads limit (Parser.located p) newlines ls rest fun v => P v.value :=
  .bind reads_tokenStart fun start _ => .bind h fun _ hv => .bind (reads_spanFrom start) fun _ _ =>
    .pure hv

theorem Mismatches.located {p : Parser α} (h : Mismatches limit p newlines (next newlines ls)) :
    Mismatches limit (Parser.located p) newlines ls :=
  .after reads_tokenStart fun _ _ => .bind h

theorem Reads.after? {p : Parser α} {t : String} (h : Reads limit p newlines ls rest P) :
    Reads limit (Parser.after? t p) newlines (.symbol t :: ls) rest fun o => ∃ v, o = some v ∧ P v := by
  refine .bind (reads_trySymbol t) fun b hb => ?_
  subst hb
  exact .bind h fun v hv => .pure ⟨v, rfl, hv⟩

theorem reads_after?_none {p : Parser α} {t : String} (ht : t ∈ symbols)
    (h : startsWithSymbol t (next newlines ls) = false) :
    Reads limit (Parser.after? t p) newlines ls ls (· = none) := by
  refine .bind (reads_trySymbol_false ht h) fun b hb => ?_
  subst hb
  exact .pure rfl

-- A statement may end here.
def endsStatement : List Lexeme → Bool
  | [] | .lineEnd :: _ => true
  | ls => startsWithSymbol "\x7d" ls

theorem Reads.terminated {p : Parser α} (h : Reads limit p newlines ls (.lineEnd :: rest) P) :
    Reads limit (Parser.terminated p) newlines ls (.lineEnd :: rest) P := by
  refine .bind h fun v hv => ?_
  intro ctx s _ hs
  obtain ⟨crossed, s', hskip, hstarts⟩ := skipTriviaWith_written hs false ctx
  obtain ⟨after, hrest, hw⟩ := hstarts.exists_lineEnd
  refine ⟨v, s', ?_, hstarts.written, hv⟩
  change Parser.bind (Parser.skipTriviaWith false) _ ctx s = _
  rw [Parser.bind, hskip]
  change (if Parser.endsStatement s'.rest then _ else _ : Parser α) ctx s' = _
  rw [hrest]
  rfl

theorem not_endsStatement_starts (h : endsStatement ls = false) {cs : List Char}
    (hs : Starts ls cs) : Parser.endsStatement cs = false := by
  have hbrace := isPrefixOf_starts (by decide : "\x7d" ∈ symbols) hs
  cases hs with
  | nil => cases h
  | lineEnd _ => cases h
  | @lexeme l ls text after hl _ _ =>
      obtain ⟨c, tail, rfl⟩ := List.exists_cons_of_ne_nil hl.ne_nil
      have hsymbol : startsWithSymbol "\x7d" (l :: ls) = false := by
        cases l with
        | lineEnd => cases hl
        | _ => exact h
      have hc : ('\x7d' == c) = false := by
        rw [hsymbol, List.cons_append] at hbrace
        simpa [List.isPrefixOf] using hbrace
      rw [List.cons_append, Parser.endsStatement, hl.not_trivia.1, BEq.comm, hc]
      rfl

theorem Mismatches.terminated_after {p : Parser α} (h : Reads limit p newlines ls mid P)
    (hmid : endsStatement (next false mid) = false) :
    Mismatches limit (Parser.terminated p) newlines ls := by
  refine .after h fun v _ => ?_
  intro ctx s _ hs
  obtain ⟨crossed, s', hskip, hstarts⟩ := skipTriviaWith_written hs false ctx
  refine ⟨s'.pos, "end of statement", s'.furthest.record s'.pos "end of statement", ?_⟩
  change Parser.bind (Parser.skipTriviaWith false) _ ctx s = _
  rw [Parser.bind, hskip]
  change (if Parser.endsStatement s'.rest then _ else _ : Parser α) ctx s' = _
  rw [not_endsStatement_starts hmid hstarts]
  rfl

-- No statement starts with a line end or with the brace that closes its block.
def StartsLine (ls : List Lexeme) : Prop :=
  next true ls = ls ∧ startsWithSymbol "\x7d" ls = false

theorem next_statements {write : β → List Lexeme} {xs : List β}
    (hhead : ∀ x ∈ xs, ∀ tail, StartsLine (write x ++ tail)) :
    next true ((xs.map write).flatMap (· ++ [.lineEnd]) ++ .symbol "\x7d" :: rest) =
      (xs.map write).flatMap (· ++ [.lineEnd]) ++ .symbol "\x7d" :: rest := by
  cases xs with
  | nil => rfl
  | cons x xs =>
      rw [List.map_cons, List.flatMap_cons, List.append_assoc, List.append_assoc]
      exact (hhead x List.mem_cons_self _).1

theorem reads_statementsUpTo {statement : Parser α} {write : β → List Lexeme} {R : β → α → Prop}
    {xs : List β} (hhead : ∀ x ∈ xs, ∀ tail, StartsLine (write x ++ tail))
    (hitem : ∀ x ∈ xs, ∀ tail,
      Reads limit statement false (write x ++ .lineEnd :: tail) (.lineEnd :: tail) (R x))
    {bound : Nat} (hbound : xs.length < bound) :
    Reads limit (Parser.statementsUpTo statement bound) false
      ((xs.map write).flatMap (· ++ [.lineEnd]) ++ .symbol "\x7d" :: rest)
      (.symbol "\x7d" :: rest) (List.Forall₂ R xs) := by
  have hbrace : "\x7d" ∈ symbols := by decide
  induction xs generalizing bound with
  | nil =>
      obtain ⟨bound, rfl⟩ := Nat.exists_eq_add_one.mpr hbound
      refine .bind (reads_lookingAt hbrace) fun b hb => ?_
      obtain rfl : b = true := hb
      exact .pure .nil
  | cons x xs ih =>
      obtain ⟨bound, rfl⟩ := Nat.exists_eq_add_one.mpr (Nat.zero_lt_of_lt hbound)
      obtain ⟨hx, hxs⟩ := List.forall_mem_cons.mp hhead
      obtain ⟨hfirst, hothers⟩ := List.forall_mem_cons.mp hitem
      rw [List.map_cons, List.flatMap_cons, List.append_assoc, List.append_assoc,
        List.singleton_append]
      refine .bind (reads_lookingAt hbrace) fun b hb => ?_
      rw [next_false, (hx _).2] at hb
      subst hb
      refine .bind (hfirst _) fun v hv => ?_
      refine .bind (reads_lookingAt hbrace) fun b hb => ?_
      obtain rfl : b = false := hb
      refine .bind reads_newline fun _ _ => ?_
      rw [next_statements hxs]
      refine .bind (ih hxs hothers (Nat.lt_of_succ_lt_succ hbound)) fun vs hvs => ?_
      exact .pure (.cons hv hvs)

theorem reads_block {first : Parser α} {others : List (Parser α)} {write : β → List Lexeme}
    {R : β → α → Prop} {xs : List β} (hhead : ∀ x ∈ xs, ∀ tail, StartsLine (write x ++ tail))
    (hitem : ∀ x ∈ xs, ∀ tail,
      Reads limit (Parser.choice (Parser.terminated first) (others.map Parser.terminated)) false
        (write x ++ .lineEnd :: tail) (.lineEnd :: tail) (R x)) :
    Reads limit (Parser.block first others) newlines (writeBlock (xs.map write) ++ rest) rest
      (List.Forall₂ R xs) := by
  rw [writeBlock, List.cons_append, List.cons_append, List.append_assoc, List.singleton_append]
  refine .bind (reads_symbol _) fun _ _ => ?_
  have hbody : Reads limit (Parser.inline do
      let _ ← Parser.skipTriviaWith true
      fun ctx s => Parser.statementsUpTo
        (Parser.choice (Parser.terminated first) (others.map Parser.terminated))
        (s.rest.length + 1) ctx s) newlines
      (.lineEnd :: ((xs.map write).flatMap (· ++ [.lineEnd]) ++ .symbol "\x7d" :: rest))
      (.symbol "\x7d" :: rest) (List.Forall₂ R xs) := by
    refine Reads.withNewlines (.bind (reads_skipTriviaWith false true _) fun _ _ => ?_)
    intro ctx s hctx hs
    rw [next_lineEnd, next_statements hhead] at hs
    refine reads_statementsUpTo hhead hitem ?_ ctx s hctx hs
    have hlength := hs.length_le
    have hitems := length_le_flatMap (· ++ [Lexeme.lineEnd]) (xs.map write)
      fun _ _ => List.append_ne_nil_of_right_ne_nil _ (List.cons_ne_nil _ _)
    rw [List.length_append] at hlength
    rw [List.length_map] at hitems
    omega
  exact .bind hbody fun vs hvs => .bind (reads_symbol _) fun _ _ => .pure hvs

theorem eq_of_forall₂ {xs vs : List α} (h : List.Forall₂ (fun x v => v = x) xs vs) : vs = xs := by
  induction h with
  | nil => rfl
  | cons hv _ ih => rw [hv, ih]

-- Statements are compared with what they were written for, places apart.
theorem map_value_of_forall₂ {xs : List α} {vs : List (Located α)}
    (h : List.Forall₂ (fun x v => v.value = x) xs vs) : vs.map (·.value) = xs := by
  induction h with
  | nil => rfl
  | cons hv _ ih => rw [List.map_cons, hv, ih]

end

end CardLore
