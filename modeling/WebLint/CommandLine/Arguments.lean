import WebLint.Log
import WebLint.Report.Format

/-!
# Arguments

What a user may write behind the name of the command: files, directories and
globs, and flags between them.  A flag may take a value, written behind it or
after an equals sign; short flags may be written together; behind `--` there
are no flags any more.  A flag is written at most once.
-/

namespace WebLint

/-- What the arguments ask for. -/
structure Arguments where
  /-- Files, directories and globs, in order. -/
  files : List String := []
  /-- Whether violations are repaired. -/
  fix : Bool := false
  /-- The format of the report. -/
  format : ReportFormat := .concise
  /-- What is logged, if anything is said about it. -/
  logLevel : Option Severity := none
  /-- Whether there are to be no colours. -/
  noColor : Bool := false
  deriving DecidableEq, Repr, Inhabited

/-- The flags. -/
inductive Flag where
  | fix
  | outputFormat
  | logLevel
  | noColor
  | help
  | version
  deriving DecidableEq, Repr, Inhabited

namespace Flag

/-- The flags, in order. -/
def all : List Flag := [.fix, .outputFormat, .logLevel, .noColor, .help, .version]

/-- The long name of a flag. -/
def long : Flag → String
  | .fix => "fix"
  | .outputFormat => "output-format"
  | .logLevel => "log-level"
  | .noColor => "no-color"
  | .help => "help"
  | .version => "version"

/-- The short name of a flag, if it has one. -/
def short : Flag → Option Char
  | .fix => some 'f'
  | .help => some 'h'
  | .version => some 'V'
  | _ => none

/-- The values of a flag that takes one. -/
def values : Flag → List String
  | .outputFormat => ReportFormat.all.map ReportFormat.name
  | .logLevel => Severity.all.map Severity.name
  | _ => []

/-- Whether a flag takes a value. -/
def takesValue (f : Flag) : Bool := !f.values.isEmpty

/-- The flag of a long name. -/
def ofLong (name : String) : Option Flag := all.find? (·.long == name)

/-- The flag of a short name. -/
def ofShort (name : Char) : Option Flag := all.find? (·.short == some name)

end Flag

/-- Why arguments cannot be followed. -/
inductive UsageError where
  /-- The user asks for help. -/
  | help
  /-- The user asks for the version. -/
  | version
  /-- There are no files. -/
  | missingFiles
  /-- A flag is written twice. -/
  | repeated (flag : Flag)
  /-- A flag that takes no value has one; `used` are the flags before it. -/
  | needlessValue (flag : Flag) (value : String) (used : List Flag)
  /-- A flag has a value it cannot have, or, when that is empty, none. -/
  | invalidValue (flag : Flag) (value : String)
  /-- There is no such long flag; `used` are the flags before it. -/
  | unknownLong (name : String) (used : List Flag)
  /-- There is no such short flag. -/
  | unknownShort (name : Char)
  deriving DecidableEq, Repr, Inhabited

/-- The arguments read so far. -/
structure ArgumentReading where
  /-- What they ask for. -/
  arguments : Arguments := {}
  /-- The flags among them, in order. -/
  used : List Flag := []
  /-- A flag that takes a value, and the value once it is read.  It is taken
  up only when the next flag or file has been read. -/
  waiting : Option (Flag × Option String) := none
  deriving Repr, Inhabited

namespace ArgumentReading

/-! ## Flags -/

/-- What is asked for after a flag with some value, if it can have it. -/
def applyFlag (a : Arguments) (value : String) : Flag → Option Arguments
  | .fix => some { a with fix := true }
  | .noColor => some { a with noColor := true }
  | .outputFormat => (ReportFormat.ofName value).map fun f => { a with format := f }
  | .logLevel => (Severity.ofName value).map fun s => { a with logLevel := some s }
  | .help => some a
  | .version => some a

/-- Take up a flag with its value. -/
def takeUp (r : ArgumentReading) (f : Flag) (value : String) :
    Except UsageError ArgumentReading :=
  if r.used.contains f then .error (.repeated f)
  else
    match applyFlag r.arguments value f with
    | some a => .ok { r with arguments := a, used := r.used ++ [f] }
    | none => .error (.invalidValue f value)

/-- Take up the flag that waits for its value. -/
def settle (r : ArgumentReading) : Except UsageError ArgumentReading :=
  match r.waiting with
  | none => .ok r
  | some (f, none) => .error (.invalidValue f "")
  | some (f, some value) => takeUp { r with waiting := none } f value

/-- The flags read so far, with the one that waits for its value if there is
one.  A flag written twice does not count at all. -/
def usedByNow (r : ArgumentReading) : List Flag :=
  match r.waiting with
  | some (f, some _) => if r.used.contains f then r.used.erase f else r.used ++ [f]
  | _ => r.used

/-- Read a flag without a value. -/
def readFlag (r : ArgumentReading) (f : Flag) : Except UsageError ArgumentReading := do
  let r ← r.settle
  match f with
  | .help => .error .help
  | .version => .error .version
  | f => if f.takesValue then return { r with waiting := some (f, none) } else r.takeUp f ""

/-! ## Words -/

/-- A long flag without its dashes, split at the first equals sign. -/
def splitValue (text : List Char) : String × Option String :=
  match text.span (· != '=') with
  | (name, '=' :: value) => (String.ofList name, some (String.ofList value))
  | (name, _) => (String.ofList name, none)

/-- Read a long flag. -/
def readLong (r : ArgumentReading) (text : List Char) : Except UsageError ArgumentReading :=
  let (name, value) := splitValue text
  match Flag.ofLong name, value with
  | none, _ => .error (.unknownLong name r.usedByNow)
  | some f, none => r.readFlag f
  | some f, some value =>
    if f.takesValue then r.settle.bind fun r => r.takeUp f value
    else .error (.needlessValue f value r.used)

/-- Read some short flags. -/
def readShorts (r : ArgumentReading) : List Char → Except UsageError ArgumentReading
  | [] => .ok r
  | c :: rest =>
    match Flag.ofShort c with
    | none => .error (.unknownShort c)
    | some f => (r.readFlag f).bind fun r => readShorts r rest

/-- Add some files. -/
def addFiles (r : ArgumentReading) (files : List String) : ArgumentReading :=
  { r with arguments := { r.arguments with files := r.arguments.files ++ files } }

/-- Read a word that is no flag: a value some flag waits for, or a file. -/
def readPlain (r : ArgumentReading) (word : String) : Except UsageError ArgumentReading :=
  match r.waiting with
  | some (f, none) => .ok { r with waiting := some (f, some word) }
  | _ => r.settle.map fun r => r.addFiles [word]

/-- Read a word. -/
def readWord (r : ArgumentReading) (word : String) : Except UsageError ArgumentReading :=
  match word.toList with
  | '-' :: '-' :: text => r.readLong text
  | '-' :: c :: text => r.readShorts (c :: text)
  | _ => r.readPlain word

/-- Read all words.  Behind `--` all of them are files. -/
def readWords (r : ArgumentReading) : List String → Except UsageError ArgumentReading
  | [] => r.settle
  | word :: words =>
    if word = "--" then r.settle.map fun r => r.addFiles words
    else (r.readWord word).bind fun r => readWords r words

end ArgumentReading

namespace Arguments

/-- What some words behind the name of the command ask for. -/
def parse (words : List String) : Except UsageError Arguments :=
  match ArgumentReading.readWords {} words with
  | .error e => .error e
  | .ok r => if r.arguments.files.isEmpty then .error .missingFiles else .ok r.arguments

end Arguments

end WebLint
