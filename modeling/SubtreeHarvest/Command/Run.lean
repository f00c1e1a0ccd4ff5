/-
Runs of the command: a line for each item found in the input, up to the first failure that ends the
search. Items that cannot be read are left out. The input is opened before the output, and the
output before any selector is looked at; what was written before a failure stays written.
-/
import SubtreeHarvest.Command.Arguments
import SubtreeHarvest.Survey
import SubtreeHarvest.Reading

namespace SubtreeHarvest.Command

/-- Why a run failed. -/
inductive Complaint
  | unreadableInput (path : String)
  | unwritableOutput (path : String)
  | outputLost
  | invalidSelector (failure : Failure)
  | extractionFailed (failure : Failure)

def Complaint.message : Complaint → String
  | .unreadableInput path => "failed to read input file " ++ path
  | .unwritableOutput path => "failed to write output file " ++ path
  | .outputLost => "failed to write output"
  | .invalidSelector _ => "invalid selector"
  | .extractionFailed _ => "extraction failed"

/-- The failure behind a complaint, if there is one. -/
def Complaint.cause? : Complaint → Option Failure
  | .invalidSelector failure | .extractionFailed failure => some failure
  | _ => none

/-- What a run comes to. -/
structure Outcome where
  /-- What is written to the output; `none` where the output was not opened. -/
  written : Option String
  complaint : Option Complaint

namespace Outcome

def exitCode (outcome : Outcome) : Nat :=
  if outcome.complaint.isSome then 1 else 0

/-- The outcome where the output is open but takes nothing. It is written to last, so a failure of
the run itself is met first. -/
def lost (outcome : Outcome) : Outcome :=
  if outcome.written.all String.isEmpty then outcome
  else ⟨outcome.written, some (outcome.complaint.getD .outputLost)⟩

end Outcome

/-- The texts of fragments up to the first failure, and that failure. -/
def fragmentTexts : List (Except Failure Fragment) → List String × Option Failure
  | [] => ([], none)
  | .ok fragment :: rest =>
    let (texts, failure) := fragmentTexts rest
    (fragment.text :: texts, failure)
  | .error failure :: _ => ([], some failure)

/-- The texts of items up to the first failure that ends the search, and that failure; any other failure
is left out. -/
def textsOf {α : Type} (text : α → String) :
    List (Except Failure α) → List String × Option Failure
  | [] => ([], none)
  | .ok item :: rest =>
    let (texts, failure) := textsOf text rest
    (text item :: texts, failure)
  | .error failure :: rest =>
    if failure.endsStream then ([], some failure) else textsOf text rest

/-- Texts, each as a line. -/
def lines (texts : List String) : String :=
  String.join (texts.map (· ++ "\n"))

/-- The outcome of a run that writes texts and, perhaps, ends in a failure. -/
def report (found : List String × Option Failure) : Outcome :=
  let (texts, failure) := found
  ⟨some (lines texts), failure.map .extractionFailed⟩

/-- A run over a source, once the output is open. -/
def runOver {σ : Type} [EventStream σ] (arguments : Arguments) (source : σ) : Outcome :=
  match arguments.request? with
  | some request =>
    match Survey.compile arguments.selector request with
    | .error failure => ⟨some "", some (.invalidSelector failure)⟩
    | .ok survey =>
      report (textsOf (fun reading => String.ofList reading.json)
        ((survey.withLimits arguments.limits).begin source).items)
  | none =>
    match Selector.compile arguments.selector with
    | .error failure => ⟨some "", some (.invalidSelector failure)⟩
    | .ok selector => report (fragmentTexts (selector.extract arguments.limits source))

/-- What is written for a command line that asks for no run. -/
def Refusal.written : Refusal → String
  | .version => "xmlharvest 0.1.0\n"
  | .help => "Usage: xmlharvest [OPTIONS] <SELECTOR> [INPUT]\n"
  | .misuse => ""

def Refusal.exitCode : Refusal → Nat
  | .misuse => 2
  | _ => 0

/-- What a run finds around it. -/
structure Surroundings where
  standardInput : Markup.Cursor
  /-- The content at a path, if it can be opened; reading it may still fail. -/
  source? : String → Option Markup.Cursor
  /-- Whether a file can be created at a path. -/
  canCreate : String → Bool

/-- A run in its surroundings. An output in the place of the input empties it before it is read. -/
def run (surroundings : Surroundings) (arguments : Arguments) : Outcome :=
  let input : Except String Markup.Cursor := match arguments.input with
    | none => .ok surroundings.standardInput
    | some path => match surroundings.source? path with
      | some source => .ok source
      | none => .error path
  match input, arguments.output.filter (!surroundings.canCreate ·) with
  | .error path, _ => ⟨none, some (.unreadableInput path)⟩
  | .ok _, some path => ⟨none, some (.unwritableOutput path)⟩
  | .ok source, none =>
    let replaced := arguments.input.isSome && arguments.input == arguments.output
    runOver arguments (if replaced then Markup.Cursor.ofBytes [] else source)

end SubtreeHarvest.Command
