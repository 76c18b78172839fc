import CardLore.Literal.Parser

namespace CardLore

inductive Step where
  | key
  | string
  | unsigned
  | signed
  | percentage
  | tryPercentage
  | newline
  | onlyTriviaLeft
  | atEnd
  | literal
  | symbol (text : String)
  | keyword (word : String)
  | trySymbol (text : String)
  | tryKeyword (word : String)
  | lookingAt (text : String)
  | peek (offset : Nat)
  | skipTrivia (newlines : Option Bool)
  | span (start : Nat) (stop : Option Nat)
  | enter (newlines : Bool)
  | leave
  | sequence (steps : List Step)
  | attempt (step : Step)
  | choice (steps : List Step)

inductive StepValue where
  | nothing
  | bool (value : Bool)
  | word (value : String)
  | text (value : Text)
  | int (value : Int)
  | chance (value : Probability)
  | literal (value : Literal)
  | span (value : Span)
  | list (values : List StepValue)

-- The state of a running script: `entered` holds the modes to go back to, the latest first.
structure ScriptState where
  state : State
  newlines : Bool
  entered : List Bool

namespace ScriptState

def ofSource (source : List Char) : ScriptState :=
  ⟨.ofSource source, true, []⟩

-- Goes back to the position and mode of `earlier`; records and entered modes stay.
def rewindTo (s earlier : ScriptState) : ScriptState :=
  { s with
    state := { earlier.state with furthest := s.state.furthest }
    newlines := earlier.newlines }

end ScriptState

-- The reply of a step. A step that is no sensible one fails for good.
inductive StepReply where
  | ok (value : StepValue) (session : ScriptState)
  | mismatch (pos : Nat) (expected : String) (session : ScriptState)
  | fault (cause : Fault) (session : ScriptState)
  | failed (session : ScriptState)

namespace Step

variable {α : Type}

-- Runs a parser in the mode of the session.
def parse (p : Parser α) (value : α → StepValue) (ctx : Context) (s : ScriptState) : StepReply :=
  match p { ctx with newlines := s.newlines } s.state with
  | .ok result state => .ok (value result) { s with state }
  | .mismatch pos expected furthest =>
    .mismatch pos expected { s with state := { s.state with furthest } }
  | .fault cause furthest => .fault cause { s with state := { s.state with furthest } }

def optional (value : α → StepValue) : Option α → StepValue
  | some a => value a
  | none => .nothing

mutual

def run (ctx : Context) : Step → ScriptState → StepReply
  | key, s => parse Parser.key (fun k => .text k.text) ctx s
  | string, s => parse Parser.string .text ctx s
  | unsigned, s => parse Parser.unsigned (fun n => .int n) ctx s
  | signed, s => parse Parser.signed .int ctx s
  | percentage, s => parse Parser.percentage .chance ctx s
  | tryPercentage, s => parse Parser.tryPercentage (optional .chance) ctx s
  | newline, s => parse Parser.newline (fun _ => .nothing) ctx s
  | onlyTriviaLeft, s => parse Parser.onlyTriviaLeft .bool ctx s
  | atEnd, s => parse Parser.ahead (fun rest => .bool rest.isEmpty) ctx s
  | literal, s => parse Parser.literal .literal ctx s
  | symbol text, s => parse (Parser.symbol text) (fun _ => .word text) ctx s
  | keyword word, s => parse (Parser.keyword word) (fun _ => .word word) ctx s
  | trySymbol text, s => parse (Parser.trySymbol text) .bool ctx s
  | tryKeyword word, s => parse (Parser.tryKeyword word) .bool ctx s
  | lookingAt text, s => parse (Parser.lookingAt text) .bool ctx s
  | peek offset, s =>
    parse Parser.ahead (fun rest => .word (String.singleton (rest.getD offset '\x00'))) ctx s
  | skipTrivia none, s => parse Parser.skipTrivia .bool ctx s
  | skipTrivia (some newlines), s => parse (Parser.skipTriviaWith newlines) .bool ctx s
  | span start none, s => parse (Parser.spanFrom start) .span ctx s
  | span start (some stop), s => parse (Parser.spanBetween start stop) .span ctx s
  | enter newlines, s => .ok .nothing { s with newlines, entered := s.newlines :: s.entered }
  | leave, s => match s.entered with
    | [] => .ok .nothing s
    | newlines :: entered => .ok .nothing { s with newlines, entered }
  | sequence steps, s => runSequence ctx steps [] s
  | attempt step, s => match run ctx step s with
    | .mismatch _ _ after => .ok .nothing (after.rewindTo s)
    | reply => reply
  | choice steps, s => runChoice ctx steps s

-- `values` holds what the steps before gave.
def runSequence (ctx : Context) : List Step → List StepValue → ScriptState → StepReply
  | [], values, s => .ok (.list values) s
  | step :: rest, values, s => match run ctx step s with
    | .ok value next => runSequence ctx rest (values ++ [value]) next
    | reply => reply

-- There has to be an alternative to choose.
def runChoice (ctx : Context) : List Step → ScriptState → StepReply
  | [], s => .failed s
  | [step], s => run ctx step s
  | step :: rest, s => match run ctx step s with
    | .mismatch _ _ after => runChoice ctx rest (after.rewindTo s)
    | reply => reply

end

end Step

inductive StepOutcome where
  | ok (value : StepValue)
  | mismatch (pos : Nat) (expected : String)
  | refused (refusal : Refusal)

structure StepReport where
  outcome : StepOutcome
  pos : Nat
  newlines : Bool
  furthest : Furthest

namespace ScriptState

-- Runs one step; if it fails, position and mode go back to what they were.
def step (ctx : Context) (s : ScriptState) (step : Step) : StepReply :=
  match step.run ctx s with
  | .ok value next => .ok value next
  | .mismatch pos expected after => .mismatch pos expected (after.rewindTo s)
  | .fault cause after => .fault cause (after.rewindTo s)
  | .failed after => .failed (after.rewindTo s)

def report (s : ScriptState) (outcome : StepOutcome) : StepReport :=
  ⟨outcome, s.state.pos, s.newlines, s.state.furthest⟩

-- The report of each step; nesting that is too deep ends the script without any, and so does a step
-- that fails for good.
def runSteps (ctx : Context) : List Step → ScriptState → Option (List StepReport)
  | [], _ => some []
  | first :: rest, s =>
    match s.step ctx first with
    | .ok value next => (runSteps ctx rest next).map (next.report (.ok value) :: ·)
    | .mismatch pos expected next =>
      (runSteps ctx rest next).map (next.report (.mismatch pos expected) :: ·)
    | .fault (.refused refusal) next =>
      (runSteps ctx rest next).map (next.report (.refused refusal) :: ·)
    | .fault .tooDeep _ => none
    | .failed _ => none

end ScriptState

namespace StepReport

-- Expectations that later steps added at the furthest position of a step belong to its report too.
def complete : List StepReport → List StepReport
  | [] => []
  | report :: rest =>
    let rest := complete rest
    match rest with
    | next :: _ =>
      (if next.furthest.pos = report.furthest.pos then { report with furthest := next.furthest }
        else report) :: rest
    | [] => [report]

end StepReport

abbrev Script := List Step

-- Runs a script on a source. Each report holds all that was ever expected at its furthest position.
def Script.run (script : Script) (file : String) (source : List Char)
    (limit : Nat := defaultLimit) : Option (List StepReport) :=
  ((ScriptState.ofSource source).runSteps (.ofSource file source limit) script).map
    StepReport.complete

end CardLore
