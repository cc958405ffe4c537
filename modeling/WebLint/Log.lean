/-!
# The log

What a run tells about itself, apart from its report.  A computation that logs
is a value together with the events on the way to it, in order; the value
never depends on the events.

What is proved here: `value_bind` and `events_bind` — running one computation
after another gives the value of the second, and the events of both in order.
-/

namespace WebLint

/-- How important an event is. -/
inductive Severity where
  | error
  | warn
  | info
  | debug
  | trace
  deriving DecidableEq, Repr, Inhabited

namespace Severity

/-- The severities, the most important first. -/
def all : List Severity := [.error, .warn, .info, .debug, .trace]

/-- The name of a severity. -/
def name : Severity → String
  | .error => "error"
  | .warn => "warn"
  | .info => "info"
  | .debug => "debug"
  | .trace => "trace"

/-- The severity of a name. -/
def ofName (text : String) : Option Severity := all.find? (·.name == text)

/-- How many severities are as important or more. -/
def rank : Severity → Nat
  | .error => 1
  | .warn => 2
  | .info => 3
  | .debug => 4
  | .trace => 5

end Severity

/-- The parts of the program that log. -/
inductive Area where
  /-- The command line. -/
  | command
  /-- The setting up of the log itself. -/
  | logging
  /-- The search for files. -/
  | discovery
  /-- The sharing out of files between the checkers. -/
  | partition
  /-- The runs of the checkers. -/
  | checking
  /-- The application of fixes. -/
  | fixing
  /-- The search for repeated declarations. -/
  | duplicates
  /-- The collection of the report. -/
  | reporting
  deriving DecidableEq, Repr, Inhabited

/-- Something worth telling. -/
structure Event where
  /-- How important it is. -/
  severity : Severity
  /-- Which part of the program tells it. -/
  area : Area
  /-- What is told. -/
  message : String
  deriving DecidableEq, Repr, Inhabited

/-- A value, and the events on the way to it. -/
structure Logged (α : Type) where
  /-- The events, in order. -/
  events : List Event
  /-- The value. -/
  value : α
  deriving Inhabited

namespace Logged

/-- Log one event. -/
def log (severity : Severity) (area : Area) (message : String) : Logged Unit :=
  ⟨[⟨severity, area, message⟩], ()⟩

/-- Log several events. -/
def logAll (events : List Event) : Logged Unit := ⟨events, ()⟩

instance : Monad Logged where
  pure a := ⟨[], a⟩
  bind x f :=
    let y := f x.value
    ⟨x.events ++ y.events, y.value⟩

@[simp] theorem value_pure {α : Type} (a : α) : (pure a : Logged α).value = a := rfl

@[simp] theorem events_pure {α : Type} (a : α) : (pure a : Logged α).events = [] := rfl

/-- The value of two computations in a row is that of the second. -/
@[simp] theorem value_bind {α β : Type} (x : Logged α) (f : α → Logged β) :
    (x >>= f).value = (f x.value).value := rfl

/-- The events of two computations in a row are those of both. -/
@[simp] theorem events_bind {α β : Type} (x : Logged α) (f : α → Logged β) :
    (x >>= f).events = x.events ++ (f x.value).events := rfl

end Logged

end WebLint
