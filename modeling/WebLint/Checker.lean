import WebLint.Files
import WebLint.Fixing
import WebLint.Plan
import WebLint.Report
import WebLint.Script.Check
import WebLint.Style.Check

/-!
# Checkers

A checker reads the files of its language.  It reports their violations or, when
asked to, repairs them first: the fixes of a file are applied, and as long as
some of them had to be skipped the new text is checked again, for ten rounds at
most.  One file that cannot be checked fails the whole checker.

Here the files follow each other, and so do the checkers.
`WebLint.Checker.Pool` lets them be at work side by side.
-/

namespace WebLint

/-- A checker. -/
structure Checker where
  /-- The name it goes by in reports. -/
  name : String
  /-- The language of the documents it reads. -/
  language : Language
  /-- The violations of a parsed document. -/
  analyze : Parser → Document → RuleSet → RuleOptions → Node →
    Logged (Except Failure (List Violation))

/-- What a computation on files yields: a value, or a failure, and in either
case the files it leaves behind. -/
structure Outcome (α : Type) where
  /-- The files afterwards. -/
  files : Files
  /-- The value, or why there is none. -/
  result : Except Failure α
  deriving Inhabited

namespace Checker

/-- The checker of stylesheets. -/
def style : Checker := ⟨"style", .style, StyleCheck.analyze⟩

/-- The checker of scripts. -/
def script : Checker :=
  ⟨"script", .script, fun _ d rules o root => ScriptCheck.analyze d rules o root⟩

/-- The checkers of every run, in order. -/
def builtin : List Checker := [style, script]

/-- Whether a checker reads a file, by its extension. -/
def handles (c : Checker) (file : Path) : Bool := file.languages.contains c.language

/-! ## One text -/

/-- The fix of a violation, kept when the rule has safe fixes and it stays in
the parts of the file written in the language of the checker. -/
def keepFix (d : Document) (v : Violation) : Option Fix :=
  if v.rule.hasSafeFix then v.fix.filter fun f => d.contains f.start f.stop else none

/-- A violation with the file, the place and the level it is reported at. -/
def complete (d : Document) (preset : Preset) (v : Violation) : Diagnostic where
  rule := v.rule
  message := v.message
  file := d.file
  span := v.span
  location := Location.ofOffset d.text v.span.start
  level := preset.level v.rule
  fix := keepFix d v

/-- The diagnostics of a text, in order. -/
def checkText (c : Checker) (parser : Parser) (plan : Plan) (file : Path) (text : Text) :
    Logged (Except Failure (List Diagnostic)) :=
  let d := Document.ofFile parser file text c.language
  if d.isEmpty then return .ok []
  else
    match d.parse parser with
    | .error e => return .error e
    | .ok root => do
      let found ← c.analyze parser d (plan.rules.forLanguage c.language) plan.preset.options root
      return found.map fun vs => Diagnostic.sort (vs.map (complete d plan.preset))

/-! ## One file -/

/-- Check a file as it is. -/
def lintOnly (c : Checker) (parser : Parser) (plan : Plan) (file : Path) (fs : Files) :
    Logged (Except Failure (List Diagnostic)) :=
  match fs.read file with
  | .error e => return .error (.unreadable file e)
  | .ok text => c.checkText parser plan file text

/-- Write a text to a file, unless it is what the file holds. -/
def save (file : Path) (before after : Text) (fs : Files) : Logged (Except Failure Files) :=
  if after = before then return .ok fs
  else do
    Logged.log .debug .checking ("Writing fixes to " ++ file.spelling)
    match fs.refusal file with
    | some e => return .error (.unwritable file e)
    | none => return .ok (fs.write file after)

/-- The greatest number of rounds of fixes. -/
def maxRounds : Nat := 10

/-- Check a file and repair it, for as many rounds as are left. -/
def fixRounds (c : Checker) (parser : Parser) (plan : Plan) (file : Path) :
    Nat → Files → Logged (Outcome (List Diagnostic))
  | 0, fs => do return ⟨fs, ← c.lintOnly parser plan file fs⟩
  | rounds + 1, fs =>
    match fs.read file with
    | .error e => return ⟨fs, .error (.unreadable file e)⟩
    | .ok text => do
      match ← c.checkText parser plan file text with
      | .error e => return ⟨fs, .error e⟩
      | .ok found =>
        let fixed ← Fixing.applyLogged (Fixing.fixesOf found) text
        match ← save file text fixed.text fs with
        | .error e => return ⟨fs, .error e⟩
        | .ok fs =>
          if fixed.skipped then fixRounds c parser plan file rounds fs
          else return ⟨fs, ← c.lintOnly parser plan file fs⟩

/-- Check a file and repair it. -/
def lintFix (c : Checker) (parser : Parser) (plan : Plan) (file : Path) (fs : Files) :
    Logged (Outcome (List Diagnostic)) :=
  fixRounds c parser plan file maxRounds fs

/-- Check a file as the plan asks for. -/
def lintFile (c : Checker) (parser : Parser) (plan : Plan) (file : Path) (fs : Files) :
    Logged (Outcome (List Diagnostic)) :=
  if plan.fix then c.lintFix parser plan file fs
  else do return ⟨fs, ← c.lintOnly parser plan file fs⟩

/-! ## All files -/

/-- Check some files one after the other, up to the first that fails, as a single
worker does. -/
def lintFiles (c : Checker) (parser : Parser) (plan : Plan) :
    List Path → Files → Logged (Outcome (List Diagnostic))
  | [], fs => return ⟨fs, .ok []⟩
  | file :: rest, fs => do
    let first ← c.lintFile parser plan file fs
    match first.result with
    | .error e => return ⟨first.files, .error e⟩
    | .ok found =>
      let others ← lintFiles c parser plan rest first.files
      return ⟨others.files, others.result.map (found ++ ·)⟩

/-- Check all files of the plan that the checker reads. -/
def check (c : Checker) (parser : Parser) (plan : Plan) (fs : Files) :
    Logged (Outcome (List Diagnostic)) := do
  let paths := plan.paths c.language
  Logged.log .debug .checking
    ("Running the " ++ c.name ++ " checker on " ++ toString paths.length ++ " files")
  let all ← c.lintFiles parser plan paths fs
  return ⟨all.files, all.result.map Diagnostic.sort⟩

/-- The batch of a checker. -/
def batch (c : Checker) (parser : Parser) (plan : Plan) (fs : Files) : Logged (Files × Batch) := do
  let outcome ← c.check parser plan fs
  let batch ← Batch.collect c.name outcome.result (Diagnostic.toRecord (some fs.cwd))
  return (outcome.files, batch)

/-! ## All checkers -/

/-- The batches of some checkers, each reading the files the one before it
leaves behind. -/
def batches (parser : Parser) (plan : Plan) : List Checker → Files → Logged (Files × List Batch)
  | [], fs => return (fs, [])
  | c :: cs, fs => do
    let (fs, first) ← c.batch parser plan fs
    let (fs, rest) ← batches parser plan cs fs
    return (fs, first :: rest)

end Checker

end WebLint
