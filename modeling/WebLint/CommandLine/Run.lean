import WebLint.CommandLine.Terminal
import WebLint.CommandLine.Usage
import WebLint.Discovery

/-!
# Runs of the command

One run finds its files, checks them and reports: the report goes to the
standard output, the log and warnings go to the standard error.  A run
succeeds when it has nothing to report, even if a checker failed.
-/

namespace WebLint

/-- How a run ends. -/
inductive ExitStatus where
  /-- There is nothing to report. -/
  | success
  /-- There are problems. -/
  | failure
  /-- It could not be completed; the causes, the outermost first. -/
  | error (causes : List String)
  /-- It was cut short by a number that outgrew a machine word. -/
  | cutShort
  deriving DecidableEq, Repr, Inhabited

/-- The code a run ends with. -/
def ExitStatus.code : ExitStatus → Nat
  | .success => 0
  | .failure => 1
  | .error _ => 1
  | .cutShort => 101

/-- What is kept from one run to the next. -/
structure Session where
  /-- How the log is shown, once that is settled. -/
  logView : Option Terminal.LogView := none
  /-- Whether colours have been turned off. -/
  isPlain : Bool := false
  deriving DecidableEq, Repr, Inhabited

/-- What is left after a run. -/
structure RunResult where
  /-- How it ended. -/
  status : ExitStatus
  /-- What it wrote to the standard output. -/
  output : String
  /-- What it wrote to the standard error. -/
  errors : String
  /-- The files. -/
  files : Files
  deriving Inhabited

namespace Run

/-! ## Setting up the log -/

/-- The variable that holds a filter, unless it is empty. -/
def filterText (env : Environment) : Option String :=
  env.logFilter.filter (· != "")

/-- How a run would like the log to be shown: as the environment says, or as
its arguments do. -/
def ownView (env : Environment) (a : Arguments) : Terminal.LogView where
  filter :=
    match filterText env with
    | some text => LogFilter.parse text
    | none => LogFilter.ofSeverity (a.logLevel.getD .warn)
  colors := !a.noColor && env.noColor.isNone

/-- What is complained about the filter in the environment. -/
def filterComplaints (env : Environment) : String :=
  match filterText env with
  | some text => String.join ((LogFilter.complaints text).map (· ++ "\n"))
  | none => ""

/-- The session once a run has set up the log.  Only the first run does. -/
def setUp (env : Environment) (s : Session) (a : Arguments) : Session where
  logView := some (s.logView.getD (ownView env a))
  isPlain := s.isPlain || a.noColor

/-- What is logged when the log has been set up before. -/
def setUpEvents (s : Session) : List Event :=
  if s.logView.isSome then [⟨.debug, .logging, "Logging was already initialized"⟩] else []

/-! ## Warnings -/

/-- The warning that there is nothing to check. -/
def nothingFound (colors : Bool) : String :=
  Terminal.warningWord colors ++ ": " ++
    Terminal.styledIf colors "1" "No files to check found under the given path(s)." ++ "\n"

/-- The warning that a checker failed. -/
def checkerFailed (colors : Bool) (f : ProducerFailure) : String :=
  Terminal.warningWord colors ++ ": " ++ f.producer ++ " checker failed: " ++
    f.failure.message ++ "\n"

/-! ## Finding and checking -/

/-- The plan of a run. -/
def plan (walker : Walker) (fs : Files) (preset : Preset) (a : Arguments) : Logged Plan := do
  let found ← Discovery.discover walker fs a.files
  Logged.logAll (found.complaints.map fun m => ⟨.warn, .command, m⟩)
  Plan.make preset a.fix found.paths

/-- The report of a run, and the files it leaves behind. -/
def report (env : Environment) (parser : Parser) (fs : Files) (p : Plan) :
    Logged (Files × Report) := do
  Logged.log .debug .command
    ("Checking " ++ toString p.stylePaths.length ++ " stylesheet(s) and " ++
      toString p.scriptPaths.length ++ " script(s)")
  let (fs, batches) ← Checker.runOn env.turns parser Checker.builtin p fs
  return (fs, Report.ofBatches batches)

/-- What a run ends with when all has been written. -/
def statusOf (r : Report) : ExitStatus := if r.hasProblems then .failure else .success

/-- The cause of the end of a run that cannot write its report. -/
def noSpace : ExitStatus := .error ["No space left on device (os error 28)"]

/-- Write a report: what is written, and how the run ends. -/
def write (env : Environment) (format : ReportFormat) (r : Report) : String × ExitStatus :=
  let text := r.write format
  if env.outputIsFull then ("", if text = "" then statusOf r else noSpace)
  else (text, statusOf r)

/-- Check what a plan asks for and report. -/
def checkAndReport (env : Environment) (parser : Parser) (view : Terminal.LogView)
    (colors : Bool) (fs : Files) (a : Arguments) (p : Plan) : RunResult :=
  let done := report env parser fs p
  let (files, r) := done.value
  if r.isCutShort then
    { status := .cutShort, output := "", errors := view.lines done.events, files := files }
  else
    let (output, status) := write env a.format r
    { status := status
      output := output
      errors :=
        view.lines done.events ++ String.join (r.failures.map (checkerFailed colors))
      files := files }

/-- The run itself, once the log is set up. -/
def body (env : Environment) (walker : Walker) (parser : Parser) (view : Terminal.LogView)
    (colors : Bool) (fs : Files) (a : Arguments) : RunResult :=
  match Preset.bundled with
  | .error e =>
    { status := .error ["Failed to load the bundled rule preset", e.message]
      output := ""
      errors := ""
      files := fs }
  | .ok preset =>
    let planned := plan walker fs preset a
    let told := view.lines planned.events
    if planned.value.stylePaths.isEmpty && planned.value.scriptPaths.isEmpty then
      { status := .success, output := "", errors := told ++ nothingFound colors, files := fs }
    else
      let rest := checkAndReport env parser view colors fs a planned.value
      { rest with errors := told ++ rest.errors }

/-- Run the command once. -/
def run (env : Environment) (walker : Walker) (parser : Parser) (s : Session) (fs : Files)
    (a : Arguments) : Session × RunResult :=
  let after := setUp env s a
  let view := after.logView.getD (ownView env a)
  let colors := env.colorsWarnings && !after.isPlain
  let result := body env walker parser view colors fs a
  (after, { result with
    errors := filterComplaints env ++ view.lines (setUpEvents s) ++ result.errors })

/-! ## The whole command -/

/-- What a user is told about a run that could not be completed. -/
def failureText (causes : List String) : String :=
  "lint failed\n" ++ String.join (causes.map fun c => "  Cause: " ++ c ++ "\n")

/-- What is left when arguments cannot be followed.  Only asking for the
version is no error. -/
def refuse (env : Environment) (fs : Files) (e : UsageError) : RunResult :=
  let text := Usage.errorText env.colorsUsage e
  let shown := if env.outputIsFull then "" else text
  match e with
  | .version => { status := .success, output := shown, errors := "", files := fs }
  | .help | .missingFiles => { status := .error [], output := shown, errors := "", files := fs }
  | _ => { status := .error [], output := "", errors := text, files := fs }

/-- Run the command with some words behind its name. -/
def execute (env : Environment) (walker : Walker) (parser : Parser) (fs : Files)
    (words : List String) : RunResult :=
  match Arguments.parse words with
  | .error e => refuse env fs e
  | .ok a =>
    let result := (run env walker parser {} fs a).2
    match result.status with
    | .error causes => { result with errors := result.errors ++ failureText causes }
    | _ => result

end Run

end WebLint
