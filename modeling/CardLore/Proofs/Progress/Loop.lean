import CardLore.Proofs.Progress.Basic

namespace CardLore.Parser

section

variable {α β σ : Type} {source : List Char} {ctx : Context} {s t : State}

-- At most so many rounds of a loop. A round ends with what the next one starts from, or with the
-- result; where the rounds do not suffice, `out` takes over.
def rounds (round : σ → Parser (σ ⊕ β)) (out : σ → Parser β) : Nat → σ → Parser β
  | 0, i => out i
  | n + 1, i => do
    match ← round i with
    | .inl next => rounds round out n next
    | .inr result => return result

-- A round that is followed by another one takes a character.
def roundGain : σ ⊕ β → Nat
  | .inl _ => 1
  | .inr _ => 0

theorem rounds_eq_rounds {round : σ → Parser (σ ⊕ β)}
    (hround : ∀ i, (round i).Gains source roundGain) (out out' : σ → Parser β) {n m : Nat}
    (hs : s.In source) (hn : source.length < s.pos + n) (hm : source.length < s.pos + m) (i : σ) :
    rounds round out n i ctx s = rounds round out' m i ctx s := by
  have hle := hs.pos_le
  induction n generalizing m i s with
  | zero => omega
  | succ n ih =>
      cases m with
      | zero => omega
      | succ m =>
          change Parser.bind (round i) _ ctx s = Parser.bind (round i) _ ctx s
          rw [Parser.bind, Parser.bind]
          cases hreply : round i ctx s with
          | ok v t =>
              cases v with
              | inl next =>
                  obtain ⟨ht, hpos⟩ := hround i hs hreply
                  rw [roundGain] at hpos
                  exact ih ht (by omega) (by omega) next ht.pos_le
              | inr result => rfl
          | mismatch | fault => rfl

def manyRound (item : Parser α) (seen : List α) : Parser (List α ⊕ List α) := do
  match ← attempt item with
  | none => return .inr seen
  | some v => return .inl (seen ++ [v])

theorem gains_manyRound {item : Parser α} (hitem : item.GoesOn source) (seen : List α) :
    (manyRound item seen).Gains source roundGain := by
  refine Gains.bind (Gains.attempt hitem) fun o => ?_
  cases o with
  | none => exact .pure rfl
  | some v => exact .pure rfl

-- What was seen before, one value more, and the values behind it.
theorem concat_bind (p : Parser (List α)) (seen : List α) (v : α) :
    (p >>= fun vs => pure (seen ++ [v] ++ vs)) =
      (p >>= fun vs => pure (v :: vs)) >>= fun vs => pure (seen ++ vs) := by
  rw [bind_assoc]
  exact bind_congr fun vs => congrArg (Pure.pure (f := Parser)) (List.append_assoc seen [v] vs)

theorem rounds_manyRound (item : Parser α) (n : Nat) (seen : List α) :
    rounds (manyRound item) (fun seen => pure seen) n seen =
      manyUpTo item n >>= fun vs => pure (seen ++ vs) := by
  induction n generalizing seen with
  | zero => exact congrArg (Pure.pure (f := Parser)) (List.append_nil seen).symm
  | succ n ih =>
      rw [rounds, manyRound, manyUpTo, bind_assoc, bind_assoc]
      refine bind_congr fun o => ?_
      cases o with
      | none => exact congrArg (Pure.pure (f := Parser)) (List.append_nil seen).symm
      | some v => exact (ih _).trans (concat_bind _ seen v)

theorem bind_pure_nil_append (p : Parser (List α)) : (p >>= fun vs => pure ([] ++ vs)) = p := by
  funext ctx s
  change Parser.bind p _ ctx s = _
  rw [Parser.bind]
  cases p ctx s <;> rfl

-- Of a repetition only the last round reads nothing.
theorem many_eq_rounds {item : Parser α} (hitem : item.GoesOn source) (hs : s.In source)
    (out : List α → Parser (List α)) :
    many item ctx s = rounds (manyRound item) out (source.length + 1) [] ctx s := by
  have hlength := hs.length_eq
  rw [many, ← bind_pure_nil_append (manyUpTo item _), ← rounds_manyRound]
  exact rounds_eq_rounds (gains_manyRound hitem) _ _ hs (by omega) (by omega) []

theorem Stays.manyUpTo {item : Parser α} (hitem : item.Stays source) (n : Nat) :
    (Parser.manyUpTo item n).Stays source := by
  induction n with
  | zero => exact .pure rfl
  | succ n ih =>
      refine hitem.attempt.bind fun o => ?_
      cases o with
      | none => exact .pure rfl
      | some v => exact ih.bind fun vs => .pure rfl

theorem gains_many {item : Parser α} (hitem : item.GoesOn source) :
    (many item).Gains source List.length := by
  have hupTo (n : Nat) : (manyUpTo item n).Gains source List.length := by
    induction n with
    | zero => exact .pure rfl
    | succ n ih =>
        refine Gains.bind (Gains.attempt hitem) fun o => ?_
        cases o with
        | none => exact .pure rfl
        | some v => exact ih.bind fun vs => .pure (by simp)
  exact fun ctx s t v hs hok => hupTo _ hs hok

def delimitedRound (item : List α → Parser α) (close : String) (seen : List α) :
    Parser (List α ⊕ List α) := do
  let value ← item seen
  let seen := seen ++ [value]
  if ← trySymbol close then return .inr seen
  else
    symbol ","
    return .inl seen

theorem stays_trySymbol (text : String) : (trySymbol text).Stays source := by
  refine Gains.bind (Gains.attempt (gains_symbol text)) fun o => ?_
  exact .pure (Nat.zero_sub _)

theorem gains_delimitedRound {item : List α → Parser α} (hitem : ∀ seen, (item seen).Stays source)
    (close : String) (seen : List α) : (delimitedRound item close seen).Gains source roundGain := by
  refine Gains.bind (hitem seen) fun value => Gains.bind (stays_trySymbol close) fun closed => ?_
  refine .ite (fun _ => .pure rfl) fun _ => ?_
  exact Gains.bind (gains_symbol ",") fun _ => .pure rfl

theorem delimitedFrom_eq_rounds (item : List α → Parser α) (close : String) (n : Nat)
    (seen : List α) :
    delimitedFrom item close n seen =
      rounds (delimitedRound item close) (fun _ => stop .tooDeep) n seen := by
  induction n generalizing seen with
  | zero => rfl
  | succ n ih =>
      rw [rounds, delimitedRound, delimitedFrom, bind_assoc]
      refine bind_congr fun value => ?_
      dsimp only
      rw [bind_assoc]
      refine bind_congr fun closed => ?_
      cases closed with
      | true => rfl
      | false =>
          change (symbol "," >>= fun _ => _) = (symbol "," >>= fun _ => _) >>= _
          rw [bind_assoc]
          exact bind_congr fun _ => ih _

theorem delimitedFrom_eq_rounds_of_pos {item : List α → Parser α}
    (hitem : ∀ seen, (item seen).Stays source) (close : String) (hs : s.In source)
    (hpos : 0 < s.pos) (out : List α → Parser (List α)) :
    delimitedFrom item close (s.rest.length + 1) [] ctx s =
      rounds (delimitedRound item close) out source.length [] ctx s := by
  have hlength := hs.length_eq
  rw [delimitedFrom_eq_rounds]
  exact rounds_eq_rounds (gains_delimitedRound hitem close) _ _ hs (by omega) (by omega) []

def statementRound (statement : Parser α) (seen : List α) : Parser (List α ⊕ List α) := do
  if ← lookingAt "\x7d" then return .inr seen
  else
    let first ← statement
    if ← lookingAt "\x7d" then return .inr (seen ++ [first])
    else
      newline
      return .inl (seen ++ [first])

theorem gains_statementRound {statement : Parser α} (h : statement.GoesOn source) (seen : List α) :
    (statementRound statement seen).Gains source roundGain := by
  have hahead : (lookingAt "\x7d").Stays source := stays_lookahead _
  refine Gains.bind hahead fun _ => .ite (fun _ => .pure rfl) fun _ => ?_
  refine Gains.bind h fun first => Gains.bind hahead fun _ => .ite (fun _ => .pure rfl) fun _ => ?_
  exact Gains.bind ((Tracks.of fun _ => .newline).stays source) fun _ => .pure rfl

theorem rounds_statementRound (statement : Parser α) (n : Nat) (seen : List α) :
    rounds (statementRound statement) (fun _ => stop .tooDeep) n seen =
      statementsUpTo statement n >>= fun vs => pure (seen ++ vs) := by
  induction n generalizing seen with
  | zero => rfl
  | succ n ih =>
      rw [rounds, statementRound, statementsUpTo, bind_assoc, bind_assoc]
      refine bind_congr fun closed => ?_
      cases closed with
      | true => exact congrArg (Pure.pure (f := Parser)) (List.append_nil seen).symm
      | false =>
          change (statement >>= fun _ => _) >>= _ = (statement >>= fun _ => _) >>= _
          rw [bind_assoc, bind_assoc]
          refine bind_congr fun first => ?_
          rw [bind_assoc, bind_assoc]
          refine bind_congr fun closed => ?_
          cases closed with
          | true => rfl
          | false =>
              change (newline >>= fun _ => _) >>= _ = (newline >>= fun _ => _) >>= _
              rw [bind_assoc, bind_assoc]
              exact bind_congr fun _ => (ih _).trans (concat_bind _ seen first)

theorem goesOn_terminated {p : Parser α} (hp : p.GoesOn source) : (terminated p).GoesOn source := by
  refine hp.keep fun v => (stays_skipTriviaWith false).bind fun _ => ?_
  exact stays_ahead.bind fun _ => .ite (fun _ => .pure rfl) fun _ => .fail _

-- One of some alternatives, each up to the end of its statement.
theorem goesOn_statement {first : Parser α} {others : List (Parser α)}
    (h : ∀ p ∈ first :: others, (terminated p).GoesOn source) :
    (choice (terminated first) (others.map terminated)).GoesOn source := by
  refine .choice fun q hq => ?_
  rw [← List.map_cons, List.mem_map] at hq
  obtain ⟨p, hp, rfl⟩ := hq
  exact h p hp

theorem statementsUpTo_eq_rounds {statement : Parser α} (h : statement.GoesOn source)
    (hs : s.In source) (hpos : 0 < s.pos) (out : List α → Parser (List α)) :
    statementsUpTo statement (s.rest.length + 1) ctx s =
      rounds (statementRound statement) out source.length [] ctx s := by
  have hlength := hs.length_eq
  rw [← bind_pure_nil_append (statementsUpTo statement _), ← rounds_statementRound]
  exact rounds_eq_rounds (gains_statementRound h) _ _ hs (by omega) (by omega) []

def modifierRound (seen : List (SlotModifier × Nat)) :
    Parser (List (SlotModifier × Nat) ⊕ List (SlotModifier × Nat)) := do
  let pos ← tokenStart
  if ← symbolOrKeyword "!" "consume" then return .inl (seen ++ [(.consume, pos)])
  else if ← symbolOrKeyword "?" "greedy" then return .inl (seen ++ [(.greedy, pos)])
  else return .inr seen

theorem gains_consume : (symbolOrKeyword "!" "consume").Gains source Bool.toNat :=
  gains_symbolOrKeyword (by decide) (by decide) (keepsLength_of_mem (by decide))

theorem gains_greedy : (symbolOrKeyword "?" "greedy").Gains source Bool.toNat :=
  gains_symbolOrKeyword (by decide) (by decide) (keepsLength_of_mem (by decide))

theorem gains_modifierRound (seen : List (SlotModifier × Nat)) :
    (modifierRound seen).Gains source roundGain := by
  refine Gains.bind stays_tokenStart fun pos => ?_
  refine Gains.bind gains_consume fun found => ?_
  cases found with
  | true => exact .pure rfl
  | false =>
      refine Gains.bind gains_greedy fun found => ?_
      cases found with
      | true => exact .pure rfl
      | false => exact .pure rfl

theorem rounds_modifierRound (n : Nat) (seen : List (SlotModifier × Nat)) :
    rounds modifierRound (fun _ => stop .tooDeep) n seen =
      modifiersUpTo n >>= fun ms => pure (seen ++ ms) := by
  induction n generalizing seen with
  | zero => rfl
  | succ n ih =>
      rw [rounds, modifierRound, modifiersUpTo, bind_assoc, bind_assoc]
      refine bind_congr fun pos => ?_
      rw [bind_assoc, bind_assoc]
      refine bind_congr fun found => ?_
      cases found with
      | true => exact (ih _).trans (concat_bind _ seen _)
      | false =>
          change (symbolOrKeyword "?" "greedy" >>= fun _ => _) >>= _ =
            (symbolOrKeyword "?" "greedy" >>= fun _ => _) >>= _
          rw [bind_assoc, bind_assoc]
          refine bind_congr fun found => ?_
          cases found with
          | true => exact (ih _).trans (concat_bind _ seen _)
          | false => exact congrArg (Pure.pure (f := Parser)) (List.append_nil seen).symm

theorem modifiersUpTo_eq_rounds (hs : s.In source) (hpos : 0 < s.pos)
    (out : List (SlotModifier × Nat) → Parser (List (SlotModifier × Nat))) :
    modifiersUpTo (s.rest.length + 1) ctx s =
      rounds modifierRound out source.length [] ctx s := by
  have hlength := hs.length_eq
  rw [← bind_pure_nil_append (modifiersUpTo _), ← rounds_modifierRound]
  exact rounds_eq_rounds gains_modifierRound _ _ hs (by omega) (by omega) []

-- With at most so many characters ahead, the parsers do the same.
def AgreeWithin (source : List Char) (left : Nat) (p q : Parser α) : Prop :=
  ∀ ⦃ctx : Context⦄ ⦃s : State⦄, s.In source → source.length ≤ s.pos + left → p ctx s = q ctx s

namespace AgreeWithin

variable {left : Nat} {p q : Parser α} {f g : α → Parser β}

theorem refl (p : Parser α) : AgreeWithin source left p p :=
  fun _ _ _ _ => rfl

theorem bind (hp : AgreeWithin source left p q) (hstays : p.Stays source)
    (hf : ∀ v, AgreeWithin source left (f v) (g v)) :
    AgreeWithin source left (p >>= f) (q >>= g) := by
  intro ctx s hs hleft
  change Parser.bind p f ctx s = Parser.bind q g ctx s
  rw [Parser.bind, Parser.bind, ← hp hs hleft]
  cases hreply : p ctx s with
  | ok v t =>
      obtain ⟨ht, hpos⟩ := hstays hs hreply
      dsimp only at hpos
      exact hf v ht (by omega)
  | mismatch | fault => rfl

theorem next (hp : p.Stays source) (hf : ∀ v, AgreeWithin source left (f v) (g v)) :
    AgreeWithin source left (p >>= f) (p >>= g) :=
  (refl p).bind hp hf

-- Behind a part that takes a character, less is ahead.
theorem after (hp : p.GoesOn source)
    (hf : ∀ v, ∀ less < left, AgreeWithin source less (f v) (g v)) :
    AgreeWithin source left (p >>= f) (p >>= g) := by
  intro ctx s hs hleft
  change Parser.bind p f ctx s = Parser.bind p g ctx s
  rw [Parser.bind, Parser.bind]
  cases hreply : p ctx s with
  | ok v t =>
      obtain ⟨ht, hpos⟩ := hp hs hreply
      dsimp only at hpos
      have hle := ht.pos_le
      exact hf v (left - 1) (by omega) ht (by omega)
  | mismatch | fault => rfl

theorem ite {φ : Prop} [Decidable φ] {p' q' : Parser α} (hp : AgreeWithin source left p q)
    (hp' : AgreeWithin source left p' q') :
    AgreeWithin source left (if φ then p else p') (if φ then q else q') := by
  by_cases hφ : φ
  · rw [if_pos hφ, if_pos hφ]
    exact hp
  · rw [if_neg hφ, if_neg hφ]
    exact hp'

theorem withNewlines (newlines : Bool) (hp : AgreeWithin source left p q) :
    AgreeWithin source left (Parser.withNewlines newlines p) (Parser.withNewlines newlines q) :=
  fun _ _ hs hleft => hp hs hleft

theorem attempt (hp : AgreeWithin source left p q) :
    AgreeWithin source left (Parser.attempt p) (Parser.attempt q) := by
  intro ctx s hs hleft
  rw [Parser.attempt, Parser.attempt, hp hs hleft]

theorem choice_left (hp : AgreeWithin source left p q) (r : Parser α) :
    AgreeWithin source left (Parser.choice p [r]) (Parser.choice q [r]) := by
  intro ctx s hs hleft
  rw [Parser.choice]
  beta_reduce
  rw [hp hs hleft]
  rfl

theorem many (hp : AgreeWithin source left p q) (hstays : p.Stays source) :
    AgreeWithin source left (Parser.many p) (Parser.many q) := by
  have hupTo (n : Nat) : AgreeWithin source left (manyUpTo p n) (manyUpTo q n) := by
    induction n with
    | zero => exact refl _
    | succ n ih =>
        refine hp.attempt.bind hstays.attempt fun o => ?_
        cases o with
        | none => exact refl _
        | some v => exact ih.bind (hstays.manyUpTo n) fun vs => refl _
  exact fun ctx s hs hleft => hupTo _ hs hleft

theorem delimitedWith {item item' : List α → Parser α} (close : String)
    (hitem : ∀ seen, AgreeWithin source left (item seen) (item' seen))
    (hstays : ∀ seen, (item seen).Stays source) :
    AgreeWithin source left (Parser.delimitedWith item close) (Parser.delimitedWith item' close) := by
  have hfrom (n : Nat) (seen : List α) :
      AgreeWithin source left (delimitedFrom item close n seen) (delimitedFrom item' close n seen) := by
    induction n generalizing seen with
    | zero => exact refl _
    | succ n ih =>
        refine (hitem seen).bind (hstays seen) fun value => next (stays_trySymbol close) fun _ => ?_
        refine ite (refl _) (next ?_ fun _ => ih _)
        exact (goesOn_symbol (by decide)).stays
  refine withNewlines true (next (stays_trySymbol close) fun _ => ite (refl _) ?_)
  exact fun ctx s hs hleft => hfrom _ _ hs hleft

theorem member {value value' : Parser Literal} (h : AgreeWithin source left value value')
    (hstays : value.Stays source) (seen : List (Text × Literal)) :
    AgreeWithin source left (Parser.member value seen) (Parser.member value' seen) := by
  refine next stays_tokenStart fun start =>
    next ((Tracks.of fun _ => .memberName).stays source) fun name => ite (refl _) ?_
  exact next (goesOn_symbol (by decide)).stays fun _ => h.bind hstays fun _ => refl _

end AgreeWithin

theorem agreeWithin_literalWithin (left : Nat) {depth depth' : Nat} (h : left < depth)
    (h' : left < depth') : AgreeWithin source left (literalWithin depth) (literalWithin depth') := by
  induction left using Nat.strongRecOn generalizing depth depth' with
  | ind left ih =>
      obtain ⟨depth, rfl⟩ := Nat.exists_eq_add_of_lt h
      obtain ⟨depth', rfl⟩ := Nat.exists_eq_add_of_lt h'
      -- Inside of a bracket less is ahead, so the depth that is left suffices again.
      have hinside {less : Nat} (hless : less < left) :
          AgreeWithin source less (literalWithin (left + depth)) (literalWithin (left + depth')) :=
        ih less hless (by omega) (by omega)
      have hstays (depth : Nat) := (Tracks.literalWithin depth).stays source
      rw [literalWithin, literalWithin]
      refine .withNewlines true (.next stays_skipTrivia fun _ => .next stays_ahead fun cs => ?_)
      split
      · exact .refl _
      · refine .after (goesOn_symbol (by decide)) fun _ less hless => ?_
        refine .bind (.delimitedWith _ (fun _ => hinside hless) fun _ => hstays _) ?_
          fun _ => .refl _
        exact (Tracks.ofWithin fun _ => (Tandem.literalWithin_same _).items).stays source
      · refine .after (goesOn_symbol (by decide)) fun _ less hless => ?_
        have hmember (seen : List (Text × Literal)) :=
          AgreeWithin.member (hinside hless) (hstays _) seen
        have hmember' (seen : List (Text × Literal)) :=
          (Tracks.member (left + depth) seen).stays source
        refine .bind (.delimitedWith _ hmember hmember') ?_ fun _ => .refl _
        exact (Tracks.ofWithin fun _ => (Tandem.literalWithin_same _).members).stays source
      · exact .refl _

theorem agreeWithin_declarationWithin (left : Nat) {depth depth' : Nat} (h : left < depth)
    (h' : left < depth') :
    AgreeWithin source left (declarationWithin depth) (declarationWithin depth') := by
  induction left using Nat.strongRecOn generalizing depth depth' with
  | ind left ih =>
      obtain ⟨depth, rfl⟩ := Nat.exists_eq_add_of_lt h
      obtain ⟨depth', rfl⟩ := Nat.exists_eq_add_of_lt h'
      have hattributes := (Tracks.of fun _ => Tandem.localAttribute.closed.many).stays source
      have hbody :=
        (Tracks.ofWithin fun _ => (Tandem.declarationWithin_same (left + depth)).many).stays source
      rw [declarationWithin, declarationWithin]
      refine .choice_left (.next stays_tokenStart fun start =>
        .next hattributes fun attributes => ?_) _
      refine .after ((Tracks.of fun _ => .keyword (by decide)).goesOn source) fun _ less hless => ?_
      refine .next ((Tracks.of fun _ => .key).stays source) fun id =>
        .next (goesOn_symbol (by decide)).stays fun _ => ?_
      refine .bind (.many (ih less hless (by omega) (by omega)) ?_) hbody fun _ => .refl _
      exact (Tracks.declarationWithin _).stays source

end

end CardLore.Parser
