import CardLore.Parser.Script
import CardLore.Proofs.Mismatch.Raised

namespace CardLore

namespace StepReply

def session : StepReply → ScriptState
  | ok _ session => session
  | mismatch _ _ session => session
  | fault _ session => session
  | failed session => session

-- The mismatch that the reply is, if it is one.
def raised : StepReply → List Mismatch
  | ok .. => []
  | mismatch pos expected _ => [⟨pos, expected⟩]
  | fault .. => []
  | failed .. => []

end StepReply

namespace Step

mutual

-- The mismatches that a step raises, the first one first. Of those that cannot go back this is at
-- most the one that they end with.
def raised (ctx : Context) : Step → ScriptState → List Mismatch
  | literal, s => Raised.literalWithin ctx.limit { ctx with newlines := s.newlines } s.state
  | tryPercentage, s => (percentage.run ctx s).raised
  | trySymbol text, s => ((symbol text).run ctx s).raised
  | tryKeyword word, s => ((keyword word).run ctx s).raised
  | sequence steps, s => raisedSequence ctx steps s
  | attempt step, s => raised ctx step s
  | choice steps, s => raisedChoice ctx steps s
  | step, s => (step.run ctx s).raised

def raisedSequence (ctx : Context) : List Step → ScriptState → List Mismatch
  | [], _ => []
  | step :: rest, s => raised ctx step s ++ match step.run ctx s with
    | .ok _ next => raisedSequence ctx rest next
    | .mismatch .. => []
    | .fault .. => []
    | .failed .. => []

-- Where there is no alternative, there is none that could raise a mismatch.
def raisedChoice (ctx : Context) : List Step → ScriptState → List Mismatch
  | [], _ => []
  | step :: rest, s => raised ctx step s ++ match step.run ctx s with
    | .ok .. => []
    | .mismatch _ _ after => raisedChoice ctx rest (after.rewindTo s)
    | .fault .. => []
    | .failed .. => []

end

section

variable {α : Type} {ctx : Context} {s : ScriptState} {p : Parser α} {raised : Raised}
  {value : α → StepValue}

theorem furthest_parse (hp : p.Raises raised) (value : α → StepValue) (ctx : Context)
    (s : ScriptState) :
    (parse p value ctx s).session.state.furthest =
      s.state.furthest.recordAll (raised { ctx with newlines := s.newlines } s.state) := by
  have hreply := hp { ctx with newlines := s.newlines } s.state
  rw [parse]
  generalize p { ctx with newlines := s.newlines } s.state = r at hreply
  cases r <;> exact hreply

theorem raised_parse (p : Parser α) (value : α → StepValue) (ctx : Context) (s : ScriptState) :
    (parse p value ctx s).raised = Raised.ending p { ctx with newlines := s.newlines } s.state := by
  rw [parse, Raised.ending]
  cases p { ctx with newlines := s.newlines } s.state <;> rfl

theorem furthest_parse_straight (hp : p.Straight) (value : α → StepValue) (ctx : Context)
    (s : ScriptState) :
    (parse p value ctx s).session.state.furthest =
      s.state.furthest.recordAll (parse p value ctx s).raised := by
  rw [raised_parse]
  exact furthest_parse hp value ctx s

end

mutual

-- One step takes note of what it raises, and of nothing else.
theorem furthest_run (ctx : Context) : (step : Step) → (s : ScriptState) →
    (step.run ctx s).session.state.furthest = s.state.furthest.recordAll (step.raised ctx s)
  | key, s => furthest_parse_straight .key _ ctx s
  | string, s => furthest_parse_straight .string _ ctx s
  | unsigned, s => furthest_parse_straight .unsigned _ ctx s
  | signed, s => furthest_parse_straight .signed _ ctx s
  | percentage, s => furthest_parse_straight .percentage _ ctx s
  | newline, s => furthest_parse_straight .newline _ ctx s
  | onlyTriviaLeft, s => furthest_parse_straight .onlyTriviaLeft _ ctx s
  | atEnd, s => furthest_parse_straight .ahead _ ctx s
  | symbol text, s => furthest_parse_straight (.symbol text) _ ctx s
  | keyword word, s => furthest_parse_straight (.keyword word) _ ctx s
  | lookingAt text, s => furthest_parse_straight (.lookingAt text) _ ctx s
  | peek offset, s => furthest_parse_straight .ahead _ ctx s
  | skipTrivia none, s => furthest_parse_straight .skipTrivia _ ctx s
  | skipTrivia (some newlines), s => furthest_parse_straight (.skipTriviaWith newlines) _ ctx s
  | span start none, s => furthest_parse_straight (.spanFrom start) _ ctx s
  | span start (some stop), s => furthest_parse_straight (.spanBetween start stop) _ ctx s
  | enter newlines, s => rfl
  | leave, s => by
      simp only [run, Step.raised]
      cases s.entered <;> rfl
  | literal, s => furthest_parse (.literalWithin ctx.limit) _ ctx s
  | tryPercentage, s => by
      simp only [run, Step.raised, raised_parse]
      exact furthest_parse .tryPercentage _ ctx s
  | trySymbol text, s => by
      simp only [run, Step.raised, raised_parse]
      exact furthest_parse (.trySymbol text) _ ctx s
  | tryKeyword word, s => by
      simp only [run, Step.raised, raised_parse]
      exact furthest_parse (.tryKeyword word) _ ctx s
  | sequence steps, s => by
      rw [run, Step.raised]
      exact furthest_runSequence ctx steps [] s
  | attempt step, s => by
      have hstep := furthest_run ctx step s
      rw [run, Step.raised]
      generalize step.run ctx s = r at hstep
      cases r <;> exact hstep
  | choice steps, s => by
      rw [run, Step.raised]
      exact furthest_runChoice ctx steps s

theorem furthest_runSequence (ctx : Context) : (steps : List Step) → (values : List StepValue) →
    (s : ScriptState) → (runSequence ctx steps values s).session.state.furthest =
      s.state.furthest.recordAll (raisedSequence ctx steps s)
  | [], _, _ => rfl
  | step :: rest, values, s => by
      have hstep := furthest_run ctx step s
      rw [runSequence, raisedSequence]
      generalize step.run ctx s = r at hstep
      cases r with
      | ok value next =>
          rw [Furthest.recordAll_append, ← hstep]
          exact furthest_runSequence ctx rest (values ++ [value]) next
      | mismatch | fault | failed =>
          rw [List.append_nil]
          exact hstep

theorem furthest_runChoice (ctx : Context) : (steps : List Step) → (s : ScriptState) →
    (runChoice ctx steps s).session.state.furthest =
      s.state.furthest.recordAll (raisedChoice ctx steps s)
  | [], _ => rfl
  | [step], s => by
      have hstep := furthest_run ctx step s
      rw [runChoice, raisedChoice, hstep]
      cases step.run ctx s <;> simp [raisedChoice]
  | step :: second :: others, s => by
      have hstep := furthest_run ctx step s
      rw [raisedChoice, runChoice]
      · generalize step.run ctx s = r at hstep
        cases r with
        | mismatch pos expected after =>
            rw [Furthest.recordAll_append, ← hstep]
            exact furthest_runChoice ctx (second :: others) (after.rewindTo s)
        | ok | fault | failed =>
            rw [List.append_nil]
            exact hstep
      · exact List.cons_ne_nil _ _

end

end Step

namespace ScriptState

-- Where a script leads; a step that fails is undone.
def after (ctx : Context) (s : ScriptState) (script : Script) : ScriptState :=
  script.foldl (fun s step => (s.step ctx step).session) s

end ScriptState

-- All that the steps raise, each from where those before it led.
def Script.raised (ctx : Context) : Script → ScriptState → List Mismatch
  | [], _ => []
  | step :: rest, s => step.raised ctx s ++ Script.raised ctx rest (s.step ctx step).session

variable {ctx : Context} {s : ScriptState}

-- Undoing a step leaves the record alone.
theorem furthest_step (ctx : Context) (s : ScriptState) (step : Step) :
    (s.step ctx step).session.state.furthest = (step.run ctx s).session.state.furthest := by
  rw [ScriptState.step]
  cases step.run ctx s <;> rfl

theorem furthest_attempt (ctx : Context) (s : ScriptState) (step : Step) :
    ((Step.attempt step).run ctx s).session.state.furthest =
      (step.run ctx s).session.state.furthest := by
  rw [Step.furthest_run, Step.furthest_run, Step.raised]

theorem furthest_after (ctx : Context) (script : Script) (s : ScriptState) :
    (s.after ctx script).state.furthest = s.state.furthest.recordAll (script.raised ctx s) := by
  induction script generalizing s with
  | nil => rfl
  | cons step rest ih =>
      rw [Script.raised, Furthest.recordAll_append, ← Step.furthest_run, ← furthest_step]
      exact ih _

-- The reports show the record after each of the steps.
theorem furthest_of_runSteps {script : Script} {reports : List StepReport}
    (h : s.runSteps ctx script = some reports) (i : Nat) {report : StepReport}
    (hreport : reports[i]? = some report) :
    report.furthest = (s.after ctx (script.take (i + 1))).state.furthest := by
  induction script generalizing s reports i with
  | nil =>
      cases h
      cases hreport
  | cons step rest ih =>
      rw [ScriptState.runSteps] at h
      have hfirst : ∃ outcome more, reports = (s.step ctx step).session.report outcome :: more ∧
          (s.step ctx step).session.runSteps ctx rest = some more := by
        generalize s.step ctx step = r at h
        cases r with
        | ok value next =>
            obtain ⟨more, hmore, rfl⟩ := Option.map_eq_some_iff.mp h
            exact ⟨_, more, rfl, hmore⟩
        | mismatch pos expected next =>
            obtain ⟨more, hmore, rfl⟩ := Option.map_eq_some_iff.mp h
            exact ⟨_, more, rfl, hmore⟩
        | fault cause next =>
            cases cause with
            | refused refusal =>
                obtain ⟨more, hmore, rfl⟩ := Option.map_eq_some_iff.mp h
                exact ⟨_, more, rfl, hmore⟩
            | tooDeep => cases h
        | failed => cases h
      obtain ⟨outcome, more, rfl, hmore⟩ := hfirst
      cases i with
      | zero =>
          cases hreport
          rfl
      | succ i => exact ih hmore i hreport

-- After any steps on a source the record of the furthest mismatch is that of all that were raised
-- so far, whether they were recovered from or not; this is what every report of a step shows. Going
-- back changes nothing of it, and no step makes it smaller.
theorem furthest_record_exact (file : String) (source : List Char) (limit : Nat) (newlines : Bool)
    (script : Script) :
    let ctx := Context.ofSource file source limit
    let start : ScriptState := ⟨.ofSource source, newlines, []⟩
    (start.after ctx script).state.furthest.IsRecordOf (script.raised ctx start) ∧
    (∀ reports, start.runSteps ctx script = some reports →
      ∀ (i : Nat) (report : StepReport), reports[i]? = some report →
        report.furthest.IsRecordOf (Script.raised ctx (script.take (i + 1)) start)) ∧
    (∀ (s : ScriptState) (step : Step),
      (s.step ctx step).session.state.furthest = (step.run ctx s).session.state.furthest ∧
      ((Step.attempt step).run ctx s).session.state.furthest =
        (step.run ctx s).session.state.furthest) ∧
    ∀ (s : ScriptState) (step : Step),
      s.state.furthest.GrowsTo (step.run ctx s).session.state.furthest := by
  intro ctx start
  have hafter (script : Script) :
      (start.after ctx script).state.furthest.IsRecordOf (script.raised ctx start) := by
    rw [furthest_after]
    exact Furthest.isRecordOf_empty.recordAll _
  refine ⟨hafter script, ?_, ?_, ?_⟩
  · intro reports hreports i report hreport
    rw [furthest_of_runSteps hreports i hreport]
    exact hafter _
  · exact fun s step => ⟨furthest_step ctx s step, furthest_attempt ctx s step⟩
  · intro s step
    rw [Step.furthest_run]
    exact Furthest.growsTo_recordAll _ _

end CardLore
