import CardLore.Proofs.Mismatch.Script
import CardLore.Proofs.Progress.Loop

namespace CardLore

namespace Step

mutual

-- The words that are asked for.
def words : Step → List String
  | keyword word => [word]
  | tryKeyword word => [word]
  | sequence steps => wordsOf steps
  | attempt step => words step
  | choice steps => wordsOf steps
  | _ => []

def wordsOf : List Step → List String
  | [] => []
  | step :: rest => words step ++ wordsOf rest

end

variable {source : List Char} {ctx : Context} {s : ScriptState}

theorem in_parse {α : Type} {p : Parser α} (hp : p.Stays source) (value : α → StepValue)
    (ctx : Context) (hs : s.state.In source) : (parse p value ctx s).session.state.In source := by
  rw [parse]
  cases hreply : p { ctx with newlines := s.newlines } s.state with
  | ok result state => exact (hp hs hreply).1
  | mismatch pos expected furthest => exact hs.furthest furthest
  | fault cause furthest => exact hs.furthest furthest

theorem in_rewindTo {after : ScriptState} (hs : s.state.In source) :
    (after.rewindTo s).state.In source :=
  hs.furthest after.state.furthest

theorem stays_keyword {word : String} (h : Parser.KeepsLength word) :
    (Parser.keyword word).Stays source :=
  (Parser.gains_keyword h).mono fun _ => Nat.zero_le _

theorem stays_symbol (text : String) : (Parser.symbol text).Stays source :=
  (Parser.gains_symbol text).mono fun _ => Nat.zero_le _

theorem stays_onlyTriviaLeft : Parser.onlyTriviaLeft.Stays source :=
  Parser.stays_lookahead _

theorem stays_spanFrom (start : Nat) : (Parser.spanFrom start).Stays source := by
  intro ctx s t span hs hok
  cases hok
  exact ⟨hs, Nat.le_refl _⟩

mutual

theorem in_run (ctx : Context) : (step : Step) → (s : ScriptState) →
    (∀ word ∈ step.words, Parser.KeepsLength word) → s.state.In source →
    (step.run ctx s).session.state.In source
  | key, _, _, hs => in_parse ((Tracks.of fun _ => .key).stays source) _ ctx hs
  | string, _, _, hs => in_parse ((Tracks.of fun _ => .string).stays source) _ ctx hs
  | unsigned, _, _, hs => in_parse ((Tracks.of fun _ => .unsigned).stays source) _ ctx hs
  | signed, _, _, hs => in_parse ((Tracks.of fun _ => .signed).stays source) _ ctx hs
  | percentage, _, _, hs => in_parse ((Tracks.of fun _ => .percentage).stays source) _ ctx hs
  | tryPercentage, _, _, hs =>
      in_parse ((Tracks.of fun _ => .tryPercentage).stays source) _ ctx hs
  | newline, _, _, hs => in_parse ((Tracks.of fun _ => .newline).stays source) _ ctx hs
  | onlyTriviaLeft, _, _, hs => in_parse stays_onlyTriviaLeft _ ctx hs
  | atEnd, _, _, hs => in_parse Parser.stays_ahead _ ctx hs
  | literal, _, _, hs => in_parse ((Tracks.of fun _ => .literal).stays source) _ ctx hs
  | symbol text, _, _, hs => in_parse (stays_symbol text) _ ctx hs
  | trySymbol text, _, _, hs => in_parse (Parser.stays_trySymbol text) _ ctx hs
  | keyword word, _, hwords, hs =>
      in_parse (stays_keyword (hwords word (by simp [words]))) _ ctx hs
  | tryKeyword word, _, hwords, hs =>
      in_parse ((stays_keyword (hwords word (by simp [words]))).attempt.bind fun _ => .pure rfl)
        _ ctx hs
  | lookingAt _, _, _, hs => in_parse (Parser.stays_lookahead _) _ ctx hs
  | peek _, _, _, hs => in_parse Parser.stays_ahead _ ctx hs
  | skipTrivia none, _, _, hs => in_parse Parser.stays_skipTrivia _ ctx hs
  | skipTrivia (some newlines), _, _, hs =>
      in_parse (Parser.stays_skipTriviaWith newlines) _ ctx hs
  | span start none, _, _, hs => in_parse (stays_spanFrom start) _ ctx hs
  | span _ (some _), _, _, hs => hs
  | enter _, _, _, hs => hs
  | leave, s, _, hs => by
      rw [run]
      cases s.entered <;> exact hs
  | sequence steps, s, hwords, hs => by
      rw [run]
      exact in_runSequence ctx steps [] s (by simpa [words] using hwords) hs
  | attempt step, s, hwords, hs => by
      have hstep := in_run ctx step s (by simpa [words] using hwords) hs
      rw [run]
      generalize step.run ctx s = r at hstep
      cases r with
      | mismatch => exact in_rewindTo hs
      | ok | fault | failed => exact hstep
  | choice steps, s, hwords, hs => by
      rw [run]
      exact in_runChoice ctx steps s (by simpa [words] using hwords) hs

theorem in_runSequence (ctx : Context) : (steps : List Step) → (values : List StepValue) →
    (s : ScriptState) → (∀ word ∈ wordsOf steps, Parser.KeepsLength word) → s.state.In source →
    (runSequence ctx steps values s).session.state.In source
  | [], _, _, _, hs => hs
  | step :: rest, values, s, hwords, hs => by
      rw [wordsOf, List.forall_mem_append] at hwords
      have hstep := in_run ctx step s hwords.1 hs
      rw [runSequence]
      generalize step.run ctx s = r at hstep
      cases r with
      | ok value next => exact in_runSequence ctx rest _ next hwords.2 hstep
      | mismatch | fault | failed => exact hstep

theorem in_runChoice (ctx : Context) : (steps : List Step) → (s : ScriptState) →
    (∀ word ∈ wordsOf steps, Parser.KeepsLength word) → s.state.In source →
    (runChoice ctx steps s).session.state.In source
  | [], _, _, hs => hs
  | [step], s, hwords, hs => by
      rw [runChoice]
      exact in_run ctx step s (by simpa [wordsOf] using hwords) hs
  | step :: second :: others, s, hwords, hs => by
      rw [wordsOf, List.forall_mem_append] at hwords
      have hstep := in_run ctx step s hwords.1 hs
      rw [runChoice]
      · generalize step.run ctx s = r at hstep
        cases r with
        | mismatch => exact in_runChoice ctx (second :: others) _ hwords.2 (in_rewindTo hs)
        | ok | fault | failed => exact hstep
      · exact List.cons_ne_nil _ _

end

end Step

theorem in_step {source : List Char} (ctx : Context) {s : ScriptState} {step : Step}
    (hwords : ∀ word ∈ step.words, Parser.KeepsLength word) (hs : s.state.In source) :
    (s.step ctx step).session.state.In source := by
  have hrun := Step.in_run ctx step s hwords hs
  rw [ScriptState.step]
  generalize step.run ctx s = r at hrun
  cases r with
  | ok => exact hrun
  | mismatch | fault | failed => exact Step.in_rewindTo hs

theorem in_after {source : List Char} (ctx : Context) (script : Script) {s : ScriptState}
    (hwords : ∀ word ∈ Step.wordsOf script, Parser.KeepsLength word) (hs : s.state.In source) :
    (s.after ctx script).state.In source := by
  induction script generalizing s with
  | nil => exact hs
  | cons step rest ih =>
      rw [Step.wordsOf, List.forall_mem_append] at hwords
      exact ih hwords.2 (in_step ctx hwords.1 hs)

-- Each word of the language takes at least one character, and so does a literal.
structure WordsGoOn (source : List Char) : Prop where
  symbol : ∀ text : String, text ≠ "" → (Parser.symbol text).GoesOn source
  keyword : ∀ word : String, word ≠ "" → Parser.KeepsLength word →
    (Parser.keyword word).GoesOn source
  key : Parser.key.GoesOn source
  string : Parser.string.GoesOn source
  unsigned : Parser.unsigned.GoesOn source
  signed : Parser.signed.GoesOn source
  percentage : Parser.percentage.GoesOn source
  literal : Parser.literal.GoesOn source

theorem wordsGoOn (source : List Char) : WordsGoOn source where
  symbol _ htext := Parser.goesOn_symbol htext
  keyword _ hword hkeeps := Parser.goesOn_keyword hword hkeeps
  key := (Tracks.of fun _ => .key).goesOn source
  string := (Tracks.of fun _ => .string).goesOn source
  unsigned := (Tracks.of fun _ => .unsigned).goesOn source
  signed := (Tracks.of fun _ => .signed).goesOn source
  percentage := (Tracks.of fun _ => .percentage).goesOn source
  literal := (Tracks.of fun _ => .literal).goesOn source

-- The clauses that stand in the blocks of components.
def Parser.clauses : List (Parser Clause) :=
  [setClause, induceClause, xtriggerClause, uniqueClause, cardSlotClause, requireClause,
    quantityClause, mutateClause, branchClause, recipeSlotClause, startingCardClause,
    referenceClause "ending", referenceClause "verb", referenceClause "status",
    referenceClause "exclude"]

-- The same of all that may be repeated: attributes and declarations, statements, items of lists,
-- modifiers of slots, items of arrays and members of objects.
structure PartsGoOn (source : List Char) : Prop where
  fileAttribute : Parser.fileAttribute.GoesOn source
  localAttribute : Parser.localAttribute.GoesOn source
  declaration : ∀ depth, (Parser.declarationWithin depth).GoesOn source
  clause : ∀ p ∈ Parser.clauses, (Parser.terminated (Parser.located p)).GoesOn source
  deckEntry : ∀ p ∈ [Parser.defaultEntry, Parser.deckCard false],
    (Parser.terminated (Parser.located p)).GoesOn source
  slotFilter : Parser.slotFilter.GoesOn source
  requirement : Parser.requirement.GoesOn source
  elementAmount : (Parser.located Parser.elementAmount).GoesOn source
  consume : (Parser.symbolOrKeyword "!" "consume").Gains source Bool.toNat
  greedy : (Parser.symbolOrKeyword "?" "greedy").Gains source Bool.toNat
  arrayItem : ∀ depth, (Parser.literalWithin depth).GoesOn source
  member : ∀ depth seen, (Parser.member (Parser.literalWithin depth) seen).GoesOn source

theorem behaves_clause {w : Settings} :
    ∀ p ∈ Parser.clauses, Behaves w w.left.limit .closed [] [] p Clause.WellFormed := by
  simp only [Parser.clauses, List.forall_mem_cons]
  exact ⟨.setClause, .induceClause, .xtriggerClause, .uniqueClause, .cardSlotClause, .requireClause,
    .quantityClause, .mutateClause, .branchClause, .recipeSlotClause, .startingCardClause,
    .referenceClause (by decide), .referenceClause (by decide), .referenceClause (by decide),
    .referenceClause (by decide), List.forall_mem_nil _⟩

theorem partsGoOn (source : List Char) : PartsGoOn source where
  fileAttribute := (Tracks.of fun _ => .fileAttribute).goesOn source
  localAttribute := (Tracks.of fun _ => Tandem.localAttribute.closed).goesOn source
  declaration depth := (Tracks.declarationWithin depth).goesOn source
  clause p hp :=
    Parser.goesOn_terminated ((Tracks.of fun _ => (behaves_clause p hp).located).goesOn source)
  deckEntry := by
    rw [List.forall_mem_cons, List.forall_mem_singleton]
    refine ⟨Parser.goesOn_terminated ?_, Parser.goesOn_terminated ?_⟩
    · exact (Tracks.of fun _ => Tandem.defaultEntry.located).goesOn source
    · exact (Tracks.of fun _ => (Tandem.deckCard false).located).goesOn source
  slotFilter := (Tracks.of fun _ => .slotFilter).goesOn source
  requirement := (Tracks.of fun _ => .requirement).goesOn source
  elementAmount := (Tracks.of fun _ => Tandem.elementAmount.located).goesOn source
  consume := Parser.gains_consume
  greedy := Parser.gains_greedy
  arrayItem depth := (Tracks.literalWithin depth).goesOn source
  member depth seen := (Tracks.member depth seen).goesOn source

-- A loop is over after no more rounds than the source has characters: whatever would come after
-- them is not reached. A repetition is over with the first item that does not match, which counts
-- as one round more; the other loops stand behind a bracket.
structure LoopsEnd (source : List Char) : Prop where
  many : ∀ {α : Type} (item : Parser α), item.GoesOn source →
    ∀ (ctx : Context) (s : State), s.In source →
      (∀ out, Parser.many item ctx s =
        Parser.rounds (Parser.manyRound item) out (source.length + 1) [] ctx s) ∧
      ∀ vs t, Parser.many item ctx s = .ok vs t → vs.length ≤ source.length
  delimited : ∀ {α : Type} (item : List α → Parser α) (close : String),
    (∀ seen, (item seen).GoesOn source) →
    ∀ (ctx : Context) (s : State), s.In source → 0 < s.pos → ∀ out,
      Parser.delimitedFrom item close (s.rest.length + 1) [] ctx s =
        Parser.rounds (Parser.delimitedRound item close) out source.length [] ctx s
  statements : ∀ {α : Type} (first : Parser α) (others : List (Parser α)),
    (∀ p ∈ first :: others, (Parser.terminated p).GoesOn source) →
    ∀ (ctx : Context) (s : State), s.In source → 0 < s.pos → ∀ out,
      let statement := Parser.choice (Parser.terminated first) (others.map Parser.terminated)
      Parser.statementsUpTo statement (s.rest.length + 1) ctx s =
        Parser.rounds (Parser.statementRound statement) out source.length [] ctx s
  modifiers : ∀ (ctx : Context) (s : State), s.In source → 0 < s.pos → ∀ out,
    Parser.modifiersUpTo (s.rest.length + 1) ctx s =
      Parser.rounds Parser.modifierRound out source.length [] ctx s

theorem loopsEnd (source : List Char) : LoopsEnd source where
  many item hitem ctx s hs := by
    refine ⟨Parser.many_eq_rounds hitem hs, fun vs t hok => ?_⟩
    obtain ⟨ht, hpos⟩ := Parser.gains_many hitem hs hok
    have hle := ht.pos_le
    omega
  delimited item close hitem ctx s hs hpos :=
    Parser.delimitedFrom_eq_rounds_of_pos (fun seen => (hitem seen).stays) close hs hpos
  statements first others h ctx s hs hpos :=
    Parser.statementsUpTo_eq_rounds (Parser.goesOn_statement h) hs hpos
  modifiers ctx s hs hpos := Parser.modifiersUpTo_eq_rounds hs hpos

-- Literals and namespaces do not nest deeper than there are characters ahead: a limit beyond that
-- makes no difference.
structure NestingEnds (source : List Char) : Prop where
  literal : ∀ (ctx : Context) (s : State) (depth depth' : Nat), s.In source →
    source.length < s.pos + depth → source.length < s.pos + depth' →
    Parser.literalWithin depth ctx s = Parser.literalWithin depth' ctx s
  declaration : ∀ (ctx : Context) (s : State) (depth depth' : Nat), s.In source →
    source.length < s.pos + depth → source.length < s.pos + depth' →
    Parser.declarationWithin depth ctx s = Parser.declarationWithin depth' ctx s

theorem nestingEnds (source : List Char) : NestingEnds source where
  literal ctx s depth depth' hs h h' := by
    have hle := hs.pos_le
    exact Parser.agreeWithin_literalWithin (source.length - s.pos) (by omega) (by omega) hs
      (by omega)
  declaration ctx s depth depth' hs h h' := by
    have hle := hs.pos_le
    exact Parser.agreeWithin_declarationWithin (source.length - s.pos) (by omega) (by omega) hs
      (by omega)

theorem stays_file (source : List Char) : Parser.file.Stays source := by
  refine ((Tracks.of fun _ => Tandem.fileAttribute.many).stays source).bind fun attributes => ?_
  refine ((Tracks.of fun _ => .declarations).stays source).bind fun declarations => ?_
  refine Step.stays_onlyTriviaLeft.bind fun only => .ite ?_ ?_
  · intro _ ctx s t v hs hok
    cases hok
    exact ⟨hs, Nat.le_refl _⟩
  · intro _
    refine (Parser.stays_skipTriviaWith true).bind fun _ => ?_
    intro ctx s t v hs hok
    cases hok
    exact ⟨hs, Nat.le_refl _⟩

-- The reading stays inside of the source, through any steps and in the whole grammar. Each word,
-- and each part that may be repeated, leaves it further on than before, where a keyword is no
-- shorter in lower case than as it is written; so it is for those of the language. All loops and
-- all nesting therefore end by themselves, on every source.
theorem reading_goes_on (file : String) (source : List Char) (limit : Nat) (newlines : Bool)
    (script : Script) (hwords : ∀ word ∈ Step.wordsOf script, Parser.KeepsLength word) :
    ((⟨.ofSource source, newlines, []⟩ : ScriptState).after (.ofSource file source limit)
      script).state.In source ∧
    Parser.file.Stays source ∧ WordsGoOn source ∧
    (∀ word ∈ keywords, word ≠ "" ∧ Parser.KeepsLength word) ∧
    PartsGoOn source ∧ LoopsEnd source ∧ NestingEnds source := by
  refine ⟨in_after _ script hwords (State.in_ofSource source), stays_file source, wordsGoOn source,
    fun word hword => ⟨?_, Parser.keepsLength_of_mem hword⟩, partsGoOn source, loopsEnd source,
    nestingEnds source⟩
  have hne : ∀ word ∈ keywords, word ≠ "" := by decide
  exact hne word hword

-- A keyword in capitals, one that does not match, and a literal that is never closed.
theorem reading_goes_on_sample :
    (∀ word ∈ Step.wordsOf [.keyword "set", .attempt (.keyword "card"), .literal],
      Parser.KeepsLength word) ∧
    ((⟨.ofSource "SET [1,".toList, false, []⟩ : ScriptState).after (.ofSource "" "SET [1,".toList 1)
      [.keyword "set", .attempt (.keyword "card"), .literal]).state.In "SET [1,".toList := by
  have hwords : ∀ word ∈ Step.wordsOf [.keyword "set", .attempt (.keyword "card"), .literal],
      Parser.KeepsLength word := by
    intro word hword
    have hkeywords : ∀ word ∈ ["set", "card"], word ∈ keywords := by decide
    exact Parser.keepsLength_of_mem (hkeywords word hword)
  exact ⟨hwords, (reading_goes_on "" "SET [1,".toList 1 false _ hwords).1⟩

end CardLore
