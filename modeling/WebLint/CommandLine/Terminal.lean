import WebLint.Checker.Pool
import WebLint.CommandLine.LogFilter

/-!
# What a terminal shows

Warnings and lines of the log, with or without colours.  Characters that would
command a terminal are shown as escapes in the log.
-/

namespace WebLint

/-- The settings a run finds around it. -/
structure Environment where
  /-- The variable `NO_COLOR`. -/
  noColor : Option String := none
  /-- The variable `CLICOLOR_FORCE`. -/
  forceColor : Option String := none
  /-- The variable `LINT_LOG`. -/
  logFilter : Option String := none
  /-- Whether nothing more can be written to the standard output. -/
  outputIsFull : Bool := false
  /-- The turns that the workers of a run take, as far as they are not left to a single
  one. -/
  turns : List Task := []
  deriving DecidableEq, Repr, Inhabited

namespace Environment

/-- Whether warnings have colours, unless they are turned off. -/
def colorsWarnings (e : Environment) : Bool :=
  match e.forceColor with
  | some value => value != "0"
  | none => false

/-- Whether what a user is told about the arguments has colours.  Unlike for
warnings, turning colours off wins over forcing them. -/
def colorsUsage (e : Environment) : Bool :=
  (e.noColor.getD "").isEmpty && !(e.forceColor.getD "").isEmpty && e.colorsWarnings

end Environment

namespace Terminal

/-! ## Colours -/

/-- A text in the style of some codes. -/
def styled (codes text : String) : String := "\x1b[" ++ codes ++ "m" ++ text ++ "\x1b[0m"

/-- A text in the style of some codes, if there are colours. -/
def styledIf (colors : Bool) (codes text : String) : String :=
  if colors then styled codes text else text

/-- The word in front of a warning. -/
def warningWord (colors : Bool) : String := styledIf colors "1;33" "Warning"

/-- The code of the colour of a severity. -/
def severityCode : Severity → String
  | .error => "31"
  | .warn => "33"
  | .info => "32"
  | .debug => "34"
  | .trace => "35"

/-! ## The log -/

/-- The name of a severity in capitals, five characters wide. -/
def severityWord : Severity → String
  | .error => "ERROR"
  | .warn => " WARN"
  | .info => " INFO"
  | .debug => "DEBUG"
  | .trace => "TRACE"

/-- How one character of a message is shown. -/
def showChar (c : Char) : Text :=
  let code := Nat.toDigits 16 c.toNat
  if c = '\x1b' ∨ c = '\x07' ∨ c = '\x08' ∨ c = '\x0c' ∨ c = '\x7f' then
    ['\\', 'x'] ++ List.replicate (2 - code.length) '0' ++ code
  else if 0x80 ≤ c.toNat ∧ c.toNat ≤ 0x9f then ['\\', 'u', '\x7b'] ++ code ++ ['\x7d']
  else [c]

/-- A message as the log shows it. -/
def showMessage (message : String) : String := String.ofList (message.toList.flatMap showChar)

/-- How the log is shown. -/
structure LogView where
  /-- Which events are shown. -/
  filter : LogFilter
  /-- Whether they have colours. -/
  colors : Bool
  deriving DecidableEq, Repr, Inhabited

namespace LogView

/-- One event as a line. -/
def line (v : LogView) (e : Event) : String :=
  styledIf v.colors (severityCode e.severity) (severityWord e.severity) ++ " " ++
    showMessage e.message ++ "\n"

/-- Some events as lines, without those that are not shown. -/
def lines (v : LogView) (es : List Event) : String :=
  String.join ((es.filter v.filter.shows).map v.line)

end LogView

end Terminal

end WebLint
