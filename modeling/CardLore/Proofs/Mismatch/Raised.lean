import CardLore.Declaration.Parser
import CardLore.Proofs.Grammar.Reply
import CardLore.Proofs.Parsed.Basic

namespace CardLore

namespace Furthest

variable {f g h : Furthest} {raised more : List Mismatch}

-- Takes note of one mismatch after the other.
def recordAll (f : Furthest) (raised : List Mismatch) : Furthest :=
  raised.foldl (fun f m => f.record m.pos m.expected) f

theorem recordAll_append :
    f.recordAll (raised ++ more) = (f.recordAll raised).recordAll more :=
  List.foldl_append

-- How far the mismatches reach, and what they expect there, each expectation where it first occurs.
structure IsRecordOf (raised : List Mismatch) (f : Furthest) : Prop where
  pos_eq_none : f.pos = none ↔ raised = []
  furthest : ∀ pos, f.pos = some pos → (∃ m ∈ raised, m.pos = pos) ∧ ∀ m ∈ raised, m.pos ≤ pos
  expected : f.expected =
    ((raised.filter fun m => some m.pos = f.pos).map (·.expected)).eraseDups

theorem isRecordOf_empty : empty.IsRecordOf [] :=
  ⟨by simp [empty], by simp [empty], by simp [empty]⟩

theorem eraseDups_concat (xs : List String) (x : String) :
    (xs ++ [x]).eraseDups = if x ∈ xs then xs.eraseDups else xs.eraseDups ++ [x] := by
  rw [List.eraseDups_append]
  by_cases hx : x ∈ xs
  · simp [List.removeAll, hx]
  · simp [List.removeAll, hx, List.eraseDups_cons]

-- A mismatch that is further on than all before it.
theorem isRecordOf_concat_of_lt {m : Mismatch} (h : ∀ n ∈ raised, n.pos < m.pos) :
    (⟨some m.pos, [m.expected]⟩ : Furthest).IsRecordOf (raised ++ [m]) where
  pos_eq_none := by simp
  furthest := by
    rintro _ ⟨⟩
    refine ⟨⟨m, by simp, rfl⟩, fun n hn => ?_⟩
    rcases List.mem_append.mp hn with hn | hn
    · exact Nat.le_of_lt (h n hn)
    · rw [List.mem_singleton.mp hn]
  expected := by
    have hnone : (raised.filter fun n => some n.pos = some m.pos) = [] := by
      rw [List.filter_eq_nil_iff]
      intro n hn
      have hlt := h n hn
      simp only [Option.some.injEq, decide_eq_true_eq]
      omega
    rw [List.filter_append, hnone]
    simp [List.eraseDups_cons]

-- A mismatch that reaches nothing new.
theorem IsRecordOf.concat_of_le {m : Mismatch} {pos : Nat} {expected : List String}
    (hf : f.IsRecordOf raised) (hpos : f.pos = some pos) (hle : m.pos ≤ pos)
    (h : expected =
      (((raised ++ [m]).filter fun n => some n.pos = some pos).map (·.expected)).eraseDups) :
    (⟨some pos, expected⟩ : Furthest).IsRecordOf (raised ++ [m]) where
  pos_eq_none := by simp
  furthest := by
    obtain ⟨⟨last, hlast, hat⟩, hall⟩ := hf.furthest pos hpos
    rintro _ ⟨⟩
    refine ⟨⟨last, List.mem_append_left _ hlast, hat⟩, fun n hn => ?_⟩
    rcases List.mem_append.mp hn with hn | hn
    · exact hall n hn
    · rw [List.mem_singleton.mp hn]
      exact hle
  expected := h

-- A mismatch where the record is adds its expectation, unless it is known already.
theorem IsRecordOf.expected_concat {m : Mismatch} (hf : f.IsRecordOf raised)
    (hpos : f.pos = some m.pos) :
    (((raised ++ [m]).filter fun n => some n.pos = some m.pos).map (·.expected)).eraseDups =
      if m.expected ∈ f.expected then f.expected else f.expected ++ [m.expected] := by
  have hexpected := hf.expected
  rw [hpos] at hexpected
  have hmem : m.expected ∈ f.expected ↔
      m.expected ∈ (raised.filter fun n => some n.pos = some m.pos).map (·.expected) := by
    rw [hexpected, List.mem_eraseDups]
  have hall : (raised ++ [m]).filter (fun n => some n.pos = some m.pos) =
      raised.filter (fun n => some n.pos = some m.pos) ++ [m] := by
    simp [List.filter_append]
  rw [hall, List.map_append, List.map_singleton, eraseDups_concat, ← hexpected]
  simp only [hmem]

theorem IsRecordOf.record (hf : f.IsRecordOf raised) (m : Mismatch) :
    (f.record m.pos m.expected).IsRecordOf (raised ++ [m]) := by
  rw [Furthest.record]
  cases hpos : f.pos with
  | none =>
      obtain rfl := hf.pos_eq_none.mp hpos
      exact isRecordOf_concat_of_lt (by simp)
  | some pos =>
      dsimp only
      split_ifs with hlt hnew
      · have hall := (hf.furthest pos hpos).2
        exact isRecordOf_concat_of_lt fun n hn => Nat.lt_of_le_of_lt (hall n hn) hlt
      · obtain ⟨rfl, hnew⟩ := hnew
        refine hf.concat_of_le hpos (Nat.le_refl _) ?_
        rw [hf.expected_concat hpos, if_neg hnew]
      · have hsame : f = ⟨some pos, f.expected⟩ := by rw [← hpos]
        rw [hsame]
        refine hf.concat_of_le hpos (Nat.le_of_not_lt hlt) ?_
        by_cases heq : pos = m.pos
        · subst heq
          rw [hf.expected_concat hpos, if_pos (not_not.mp fun h => hnew ⟨rfl, h⟩)]
        · rw [List.filter_append, hf.expected, hpos]
          simp [Ne.symm heq]

theorem IsRecordOf.recordAll (hf : f.IsRecordOf raised) (more : List Mismatch) :
    (f.recordAll more).IsRecordOf (raised ++ more) := by
  induction more generalizing f raised with
  | nil => rwa [List.append_nil]
  | cons m more ih =>
      rw [← List.singleton_append, ← List.append_assoc]
      exact ih (hf.record m)

-- A record is given up for a mismatch further on only; expectations are added behind those there
-- are.
def GrowsTo (f g : Furthest) : Prop :=
  ∀ pos, f.pos = some pos → ∃ pos', g.pos = some pos' ∧ pos ≤ pos' ∧
    (pos = pos' → f.expected <+: g.expected)

theorem GrowsTo.refl (f : Furthest) : f.GrowsTo f :=
  fun pos hpos => ⟨pos, hpos, Nat.le_refl pos, fun _ => List.prefix_rfl⟩

theorem GrowsTo.trans (hfg : f.GrowsTo g) (hgh : g.GrowsTo h) : f.GrowsTo h := by
  intro pos hpos
  obtain ⟨mid, hmid, hle, hfront⟩ := hfg pos hpos
  obtain ⟨last, hlast, hle', hfront'⟩ := hgh mid hmid
  refine ⟨last, hlast, hle.trans hle', fun heq => ?_⟩
  exact (hfront (by omega)).trans (hfront' (by omega))

theorem growsTo_record (f : Furthest) (pos : Nat) (expected : String) :
    f.GrowsTo (f.record pos expected) := by
  intro furthest hfurthest
  rw [record, hfurthest]
  dsimp only
  split_ifs with hlt hnew
  · exact ⟨pos, rfl, Nat.le_of_lt hlt, by omega⟩
  · exact ⟨furthest, rfl, Nat.le_refl _, fun _ => List.prefix_append _ _⟩
  · exact ⟨furthest, hfurthest, Nat.le_refl _, fun _ => List.prefix_rfl⟩

theorem growsTo_recordAll (f : Furthest) (raised : List Mismatch) : f.GrowsTo (f.recordAll raised) := by
  induction raised generalizing f with
  | nil => exact .refl f
  | cons m raised ih => exact (f.growsTo_record m.pos m.expected).trans (ih _)

end Furthest

section

variable {α β : Type}

def Reply.furthest : Reply α → Furthest
  | ok _ s => s.furthest
  | mismatch _ _ furthest => furthest
  | fault _ furthest => furthest

-- The mismatch that the reply is, if it is one.
def Reply.raised : Reply α → List Mismatch
  | ok .. => []
  | mismatch pos expected _ => [⟨pos, expected⟩]
  | fault .. => []

-- The mismatches that a parser raises from a state on, the first one first.
def Raised : Type :=
  Context → State → List Mismatch

namespace Raised

def none : Raised := fun _ _ => []

-- The mismatch that the parser ends with, if it does.
def ending (p : Parser α) : Raised := fun ctx s =>
  (p ctx s).raised

-- What `first` tells of `p` and, behind it, what `next` tells of the part that follows.
def andThen (p : Parser α) (first : Raised) (next : α → Raised) : Raised := fun ctx s =>
  first ctx s ++ match p ctx s with
    | .ok v t => next v ctx t
    | .mismatch .. => []
    | .fault .. => []

-- What is raised with a view to the characters ahead.
def ahead (raised : List Char → Raised) : Raised := fun ctx s =>
  raised s.rest ctx s

def free (raised : Raised) : Raised := fun ctx s =>
  raised { ctx with newlines := true } s

def delimitedFrom (item : List α → Parser α) (raised : List α → Raised) (close : String) :
    (bound : Nat) → List α → Raised
  | 0, _ => none
  | bound + 1, seen =>
    andThen (item seen) (raised seen) fun value =>
    andThen (Parser.trySymbol close) (ending (Parser.symbol close)) fun closed =>
    if closed then none else
    andThen (Parser.symbol ",") (ending (Parser.symbol ",")) fun _ =>
    delimitedFrom item raised close bound (seen ++ [value])

def delimitedWith (item : List α → Parser α) (raised : List α → Raised) (close : String) : Raised :=
  free <| andThen (Parser.trySymbol close) (ending (Parser.symbol close)) fun closed =>
    if closed then none
    else fun ctx s => delimitedFrom item raised close (s.rest.length + 1) [] ctx s

def member (raised : Raised) (seen : List (Text × Literal)) : Raised :=
  andThen Parser.tokenStart (ending Parser.tokenStart) fun _ =>
  andThen Parser.memberName (ending Parser.memberName) fun name =>
  if seen.any (·.1 = name) then none else
  andThen (Parser.symbol ":") (ending (Parser.symbol ":")) fun _ => raised

def literalWithin : (depth : Nat) → Raised
  | 0 => none
  | depth + 1 => free <| andThen Parser.skipTrivia (ending Parser.skipTrivia) fun _ =>
    ahead fun cs => match cs with
      | '"' :: _ => ending Parser.string
      | '[' :: _ =>
        andThen (Parser.symbol "[") (ending (Parser.symbol "[")) fun _ =>
        delimitedWith (fun _ => Parser.literalWithin depth) (fun _ => literalWithin depth) "]"
      | '\x7b' :: _ =>
        andThen (Parser.symbol "\x7b") (ending (Parser.symbol "\x7b")) fun _ =>
        delimitedWith (Parser.member (Parser.literalWithin depth))
          (member (literalWithin depth)) "\x7d"
      | _ => if Parser.startsNumber cs then ending Parser.number else ending Parser.literalWord

end Raised

-- The parser takes note of the given mismatches, and of nothing else.
def Parser.Raises (p : Parser α) (raised : Raised) : Prop :=
  ∀ ctx s, (p ctx s).furthest = s.furthest.recordAll (raised ctx s)

-- The parser never goes back: it raises no mismatch but the one that it ends with.
def Parser.Straight (p : Parser α) : Prop :=
  p.Raises (.ending p)

namespace Parser.Raises

variable {p : Parser α} {f : α → Parser β} {raised : Raised} {next : α → Raised}

theorem bind (hp : p.Raises raised) (hf : ∀ v, (f v).Raises (next v)) :
    (p >>= f).Raises (.andThen p raised next) := by
  intro ctx s
  have hreply := hp ctx s
  change (Parser.bind p f ctx s).furthest = _
  rw [Parser.bind, Raised.andThen]
  generalize p ctx s = r at hreply
  cases r with
  | ok v t =>
      have hmore := hf v ctx t
      rw [show t.furthest = _ from hreply] at hmore
      rw [Furthest.recordAll_append]
      exact hmore
  | mismatch | fault =>
      rw [List.append_nil]
      exact hreply

-- What follows raises nothing.
theorem keep (hp : p.Raises raised) (hf : ∀ v, (f v).Raises .none) : (p >>= f).Raises raised := by
  intro ctx s
  have hbind := hp.bind hf ctx s
  rw [Raised.andThen] at hbind
  cases hreply : p ctx s <;> simpa [hreply, Raised.none] using hbind

theorem pure (v : α) : (Pure.pure v : Parser α).Raises .none :=
  fun _ _ => rfl

theorem attempt (hp : p.Raises raised) : (Parser.attempt p).Raises raised := by
  intro ctx s
  have hreply := hp ctx s
  rw [Parser.attempt]
  generalize p ctx s = r at hreply
  cases r <;> exact hreply

theorem ahead_bind {g : List Char → Parser β} {raised : List Char → Raised}
    (h : ∀ cs, (g cs).Raises (raised cs)) : (Parser.ahead >>= g).Raises (.ahead raised) :=
  fun ctx s => h s.rest ctx s

theorem free (hp : p.Raises raised) : (Parser.free p).Raises (.free raised) :=
  fun ctx s => hp { ctx with newlines := true } s

theorem ite {φ : Prop} [Decidable φ] {q : Parser α} {raised' : Raised} (hp : p.Raises raised)
    (hq : q.Raises raised') : (if φ then p else q).Raises (if φ then raised else raised') := by
  by_cases hφ : φ
  · rw [if_pos hφ, if_pos hφ]
    exact hp
  · rw [if_neg hφ, if_neg hφ]
    exact hq

end Parser.Raises

namespace Parser.Straight

variable {p q : Parser α} {f : α → Parser β}

theorem pure (v : α) : (Pure.pure v : Parser α).Straight :=
  fun _ _ => rfl

theorem bind (hp : p.Straight) (hf : ∀ v, (f v).Straight) : (p >>= f).Straight := by
  intro ctx s
  have hreply : (p ctx s).furthest = s.furthest.recordAll (p ctx s).raised := hp ctx s
  change (Parser.bind p f ctx s).furthest = s.furthest.recordAll (Parser.bind p f ctx s).raised
  rw [Parser.bind]
  generalize p ctx s = r at hreply
  cases r with
  | ok v t =>
      have hmore := hf v ctx t
      rw [show t.furthest = s.furthest from hreply] at hmore
      exact hmore
  | mismatch | fault => exact hreply

theorem failAt (pos : Nat) (expected : String) : (Parser.failAt pos expected : Parser α).Straight :=
  fun _ _ => rfl

theorem fail (expected : String) : (Parser.fail expected : Parser α).Straight :=
  fun _ _ => rfl

theorem refuseFrom (offence : Offence) (start : Nat) :
    (Parser.refuseFrom offence start : Parser α).Straight :=
  fun _ _ => rfl

theorem position : Parser.position.Straight :=
  fun _ _ => rfl

theorem ahead : Parser.ahead.Straight :=
  fun _ _ => rfl

theorem advance (n : Nat) : (Parser.advance n).Straight :=
  fun _ _ => rfl

theorem spanFrom (start : Nat) : (Parser.spanFrom start).Straight :=
  fun _ _ => rfl

theorem spanBetween (start stop : Nat) : (Parser.spanBetween start stop).Straight :=
  fun _ _ => rfl

theorem ite {φ : Prop} [Decidable φ] (hp : p.Straight) (hq : q.Straight) :
    (if φ then p else q).Straight := by
  by_cases hφ : φ
  · rw [if_pos hφ]
    exact hp
  · rw [if_neg hφ]
    exact hq

theorem lookahead (hp : p.Straight) : (Parser.lookahead p).Straight := by
  intro ctx s
  have hreply : (p ctx s).furthest = s.furthest.recordAll (p ctx s).raised := hp ctx s
  rw [Raised.ending, Parser.lookahead]
  generalize p ctx s = r at hreply
  cases r <;> exact hreply

theorem skipTriviaWith (newlines : Bool) : (Parser.skipTriviaWith newlines).Straight := by
  intro ctx s
  rw [Raised.ending, Parser.skipTriviaWith_eq]
  cases Trivia.skip newlines s.pos s.rest <;> rfl

theorem skipTrivia : Parser.skipTrivia.Straight :=
  fun ctx s => skipTriviaWith ctx.newlines ctx s

theorem tokenStart : Parser.tokenStart.Straight :=
  skipTrivia.bind fun _ => position

theorem newline : Parser.newline.Straight := by
  refine (skipTriviaWith false).bind fun _ => ahead.bind fun cs => ?_
  split
  · exact ite ((skipTriviaWith true).bind fun _ => pure ()) (fail _)
  · exact fail _

theorem lookingAt (text : String) : (Parser.lookingAt text).Straight :=
  lookahead (skipTrivia.bind fun _ => ahead.bind fun _ => pure _)

theorem onlyTriviaLeft : Parser.onlyTriviaLeft.Straight :=
  lookahead ((skipTriviaWith true).bind fun _ => ahead.bind fun _ => pure _)

theorem symbol (text : String) : (Parser.symbol text).Straight :=
  skipTrivia.bind fun _ => ahead.bind fun _ => ite (advance _) (fail _)

theorem keyword (word : String) : (Parser.keyword word).Straight :=
  skipTrivia.bind fun _ => ahead.bind fun _ => ite (advance _) (fail _)

theorem key : Parser.key.Straight :=
  skipTrivia.bind fun _ => ahead.bind fun _ => ite (fail _) ((advance _).bind fun _ => pure _)

theorem string : Parser.string.Straight := by
  refine tokenStart.bind fun start => ahead.bind fun cs => ?_
  split
  · split
    · exact (advance _).bind fun _ => pure _
    · exact failAt _ _
    · exact failAt _ _
  · exact fail _

theorem unsigned : Parser.unsigned.Straight :=
  skipTrivia.bind fun _ => ahead.bind fun _ =>
    ite (fail _) (ite (fail _) ((advance _).bind fun _ => pure _))

theorem signed : Parser.signed.Straight := by
  refine skipTrivia.bind fun _ => ahead.bind fun cs => ?_
  split
  · exact (advance _).bind fun _ => unsigned.bind fun _ => pure _
  · exact unsigned.bind fun _ => pure _

theorem percentSign {k : Unit → Parser α} (h : (k ()).Straight) :
    (Parser.ahead >>= fun cs => match cs with
      | '%' :: _ => Parser.advance 1 >>= k
      | _ => k ()).Straight := by
  refine ahead.bind fun cs => ?_
  split
  · exact (advance 1).bind fun _ => h
  · exact h

theorem percentage : Parser.percentage.Straight := by
  refine tokenStart.bind fun start => unsigned.bind fun n => percentSign ?_
  cases Probability.ofInt? n with
  | none => exact refuseFrom _ start
  | some p => exact pure p

theorem number : Parser.number.Straight := by
  refine position.bind fun start => ahead.bind fun cs => ?_
  dsimp only
  refine ite (failAt _ _) ?_
  split
  · exact (advance _).bind fun _ => pure _
  · exact failAt _ _

theorem literalWord : Parser.literalWord.Straight := by
  refine ahead.bind fun cs => ?_
  split
  · exact (advance _).bind fun _ => pure _
  · exact fail _

theorem memberName : Parser.memberName.Straight := by
  refine skipTrivia.bind fun _ => ahead.bind fun cs => ?_
  split
  · exact string
  · exact key.bind fun _ => pure _

end Parser.Straight

namespace Parser.Raises

theorem trySymbol (text : String) :
    (Parser.trySymbol text).Raises (.ending (Parser.symbol text)) :=
  (attempt (Straight.symbol text)).keep fun _ => pure _

theorem tryKeyword (word : String) :
    (Parser.tryKeyword word).Raises (.ending (Parser.keyword word)) :=
  (attempt (Straight.keyword word)).keep fun _ => pure _

theorem tryPercentage : Parser.tryPercentage.Raises (.ending Parser.percentage) :=
  attempt Straight.percentage

theorem delimitedWith {item : List α → Parser α} {raised : List α → Raised} (close : String)
    (hitem : ∀ seen, (item seen).Raises (raised seen)) :
    (Parser.delimitedWith item close).Raises (.delimitedWith item raised close) := by
  have hfrom : ∀ bound seen, (Parser.delimitedFrom item close bound seen).Raises
      (.delimitedFrom item raised close bound seen) := by
    intro bound
    induction bound with
    | zero => exact fun _ _ _ => rfl
    | succ bound ih =>
        intro seen
        refine (hitem seen).bind fun value => (trySymbol close).bind fun closed => ite (pure _) ?_
        exact bind (Straight.symbol ",") fun _ => ih _
  refine free ((trySymbol close).bind fun closed => ite (pure _) ?_)
  exact fun ctx s => hfrom _ _ ctx s

theorem member {value : Parser Literal} {raised : Raised} (hvalue : value.Raises raised)
    (seen : List (Text × Literal)) :
    (Parser.member value seen).Raises (.member raised seen) := by
  refine bind Straight.tokenStart fun start => bind Straight.memberName fun name => ?_
  refine ite (fun _ _ => rfl) (bind (Straight.symbol ":") fun _ => ?_)
  exact hvalue.keep fun _ => pure _

theorem literalWithin (depth : Nat) :
    (Parser.literalWithin depth).Raises (.literalWithin depth) := by
  induction depth with
  | zero => exact fun _ _ => rfl
  | succ depth ih =>
      refine free (bind Straight.skipTrivia fun _ => ahead_bind fun cs => ?_)
      split
      · exact keep Straight.string fun _ => pure _
      · refine bind (Straight.symbol "[") fun _ => ?_
        exact (delimitedWith "]" fun _ => ih).keep fun _ => pure _
      · refine bind (Straight.symbol "\x7b") fun _ => ?_
        exact (delimitedWith "\x7d" (member ih)).keep fun _ => pure _
      next hstring harray hobject =>
        -- Here `cs` starts with none of the three characters.
        by_cases hstart : startsNumber cs = true
        · simp only [if_pos hstart]
          exact Straight.number
        · simp only [if_neg hstart]
          exact Straight.literalWord

end Parser.Raises

end

end CardLore
