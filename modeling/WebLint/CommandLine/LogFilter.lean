import WebLint.Log
import WebLint.Text

/-!
# Log filters

Which events of the log are shown.  A filter is a list of directives: a level
for all parts of the program, or for those whose name starts with a given
text.  Of the directives for a part the most specific one counts.
-/

namespace WebLint

/-- The name of a part of the program in the log. -/
def Area.target : Area → String
  | .command => "lint::commands::check"
  | .logging => "lint::logging"
  | .discovery => "lint_core::discovery"
  | .partition => "lint_core::config"
  | .checking => "lint_core::check"
  | .fixing => "lint_core::fix"
  | .duplicates =>
    "lint_core::lints::no_duplicate_declarations::no_duplicate_declarations"
  | .reporting => "lint_core::aggregate"

/-- How much is shown: all events up to a severity, or none. -/
abbrev Verbosity := Option Severity

/-- One part of a filter. -/
structure LogDirective where
  /-- How the names of the parts of the program start that it is about. -/
  target : String
  /-- How much of these parts is shown. -/
  verbosity : Verbosity
  deriving DecidableEq, Repr, Inhabited

/-- A filter. -/
abbrev LogFilter := List LogDirective

namespace LogDirective

/-- The severity of a name, written in any case, or of its number. -/
def severity? (text : Text) : Option Severity :=
  let small := String.ofList text.toLower
  match Severity.ofName small with
  | some s => some s
  | none => Severity.all.find? fun s => toString s.rank == small

/-- How much a word says is shown. -/
def verbosity? (text : Text) : Option Verbosity :=
  if text.toLower = "off".toList ∨ text = ['0'] then some none
  else if text = [] then some (some .error)
  else (severity? text).map some

/-- Whether a directive may start with a character. -/
def mayStart (c : Char) : Bool :=
  c.isAlphanum || c == '-' || c == ':' || c == '_' || 128 ≤ c.toNat

/-- What a user is told about a directive that is none. -/
def malformedText : String := "invalid filter directive"

/-- What a user is told about a level that is none. -/
def badLevelText : String :=
  "error parsing level filter: expected one of \"off\", \"error\", \"warn\", \"info\", " ++
    "\"debug\", \"trace\", or a number 0-5"

/-- The directive a text stands for.  Without a level everything is shown. -/
def parse (text : Text) : Except String LogDirective :=
  let text := text.trim
  if !(text.head?.any mayStart) then .error malformedText
  else
    match text.span (· != '=') with
    | (target, '=' :: level) =>
      if level = [] then .ok ⟨String.ofList target, some .trace⟩
      else
        match verbosity? level with
        | some v => .ok ⟨String.ofList target, v⟩
        | none => .error badLevelText
    | _ =>
      match verbosity? text with
      | some v => .ok ⟨"", v⟩
      | none => .ok ⟨String.ofList text, some .trace⟩

/-- Whether a directive is about a part of the program. -/
def isAbout (d : LogDirective) (a : Area) : Bool :=
  d.target.toList.isPrefixOf a.target.toList

end LogDirective

namespace LogFilter

/-- The parts of a text between commas. -/
def splitCommas : Text → List Text
  | [] => [[]]
  | c :: t =>
    if c = ',' then [] :: splitCommas t
    else
      match splitCommas t with
      | [] => [[c]]
      | part :: parts => (c :: part) :: parts

/-- The directives written in a text. -/
def directiveTexts (text : String) : List Text :=
  (splitCommas text.toList).filter fun t => !t.isEmpty

/-- The filter a text stands for.  What is no directive is left out, and when
nothing is left errors are shown. -/
def parse (text : String) : LogFilter :=
  let directives := (directiveTexts text).filterMap fun t => (LogDirective.parse t).toOption
  if directives.isEmpty then [⟨"", some .error⟩] else directives

/-- What a user is told about the parts of a text that are no directives. -/
def complaints (text : String) : List String :=
  (directiveTexts text).filterMap fun t =>
    match LogDirective.parse t with
    | .ok _ => none
    | .error e => some ("ignoring `" ++ String.ofList t ++ "`: " ++ e)

/-- The filter for one severity. -/
def ofSeverity (s : Severity) : LogFilter := [⟨"lint", some s⟩, ⟨"lint_core", some s⟩]

/-- The more specific of two directives, the second one when both are the
same. -/
def moreSpecific (a b : LogDirective) : LogDirective :=
  if a.target.utf8ByteSize ≤ b.target.utf8ByteSize then b else a

/-- How much is shown of a part of the program. -/
def verbosityOf (f : LogFilter) (a : Area) : Verbosity :=
  match f.filter fun d => d.isAbout a with
  | [] => none
  | d :: ds => (ds.foldl moreSpecific d).verbosity

/-- Whether an event is shown. -/
def shows (f : LogFilter) (e : Event) : Bool :=
  match f.verbosityOf e.area with
  | some s => decide (e.severity.rank ≤ s.rank)
  | none => false

end LogFilter

end WebLint
