import WebLint.Files
import WebLint.Glob.Reader

/-!
# Ignored files

A line of a `.gitignore` file is a rule: a glob, and whether the paths it
matches are ignored or, after all, kept.  Of the rules that match a path the
last one decides.  The same notation tells which files of a walk are wanted at
all.

Like the walks themselves this stands for the package `ignore`; it reads lines
as the documentation of git describes them.
-/

namespace WebLint

/-- What some rules say about a path. -/
inductive Verdict where
  /-- Nothing. -/
  | silent
  /-- It is ignored. -/
  | ignored
  /-- It is kept. -/
  | kept
  deriving DecidableEq, Repr, Inhabited

namespace Verdict

/-- The first verdict that says something. -/
def orElse (a b : Verdict) : Verdict := if a = .silent then b else a

end Verdict

/-- A rule about ignored paths. -/
structure IgnoreRule where
  /-- The paths it is about, relative to the directory of the rule. -/
  glob : Glob
  /-- Whether these paths are kept. -/
  keeps : Bool
  /-- Whether it is about directories only. -/
  directoriesOnly : Bool
  deriving Repr, Inhabited

/-- Why a line is no rule. -/
structure IgnoreError where
  /-- The line. -/
  line : Text
  /-- What is wrong with its glob. -/
  error : GlobError
  deriving DecidableEq, Repr, Inhabited

/-- What a user is told about a line that is no rule. -/
def IgnoreError.message (e : IgnoreError) : String :=
  "error parsing glob '" ++ String.ofList e.line ++ "': " ++ e.error.message

namespace IgnoreRule

/-! ## Lines -/

/-- A line without the blanks at its end, unless the last one is escaped. -/
def trimLine (line : Text) : Text :=
  if " \\".toList.isPrefixOf line.reverse then line
  else (line.reverse.dropWhile Text.isSpace).reverse

/-- A line without the mark that its paths are kept, and whether it has one.
A backslash in front of `!` or `#` only says that these are none. -/
def stripMark : Text → Bool × Text
  | '\\' :: '!' :: rest => (false, '!' :: rest)
  | '\\' :: '#' :: rest => (false, '#' :: rest)
  | '!' :: rest => (true, rest)
  | line => (false, line)

/-- A line without the slash that ties it to its directory, and whether it has
one. -/
def stripAnchor : Text → Bool × Text
  | '/' :: rest => (true, rest)
  | line => (false, line)

/-- A line without the slash that says it is about directories, and whether it
has one.  A backslash in front of the slash goes with it. -/
def stripDirectory (line : Text) : Bool × Text :=
  match line.reverse with
  | '/' :: '\\' :: rest => (true, rest.reverse)
  | '/' :: rest => (true, rest.reverse)
  | _ => (false, line)

/-- Whether a glob may already start in any directory. -/
def startsAnywhere (line : Text) : Bool :=
  "**/".toList.isPrefixOf line || line == "**".toList

/-- The glob a line stands for.  A line without a slash matches in any
directory, and `/**` at the end does not match the directory itself. -/
def globText (anchored : Bool) (line : Text) : Text :=
  let line :=
    if !anchored && !line.contains '/' && !startsAnywhere line then "**/".toList ++ line
    else line
  if "**/".toList.isPrefixOf line.reverse then line ++ "/*".toList else line

/-- The rule of a trimmed line. -/
def ofTrimmed (brackets : Glob.Brackets) (trimmed : Text) : Except IgnoreError IgnoreRule :=
  let (keeps, line) := stripMark trimmed
  let (anchored, line) := stripAnchor line
  let (directoriesOnly, line) := stripDirectory line
  match Glob.parse brackets (globText anchored line) with
  | .ok glob => .ok { glob, keeps, directoriesOnly }
  | .error e => .error ⟨trimmed, e⟩

/-- The rule of a line, none for a comment or a blank line. -/
def ofLine (brackets : Glob.Brackets) (line : Text) : Except IgnoreError (Option IgnoreRule) :=
  if line.head? = some '#' then .ok none
  else
    let trimmed := trimLine line
    if trimmed.isEmpty then .ok none else (ofTrimmed brackets trimmed).map some

/-! ## Verdicts -/

/-- Whether a rule is about a path. -/
def isAbout (r : IgnoreRule) (path : List UInt8) (isDirectory : Bool) : Bool :=
  (!r.directoriesOnly || isDirectory) && Glob.isMatch r.glob path

/-- What a rule says about the paths it is about. -/
def verdict (r : IgnoreRule) : Verdict := if r.keeps then .kept else .ignored

/-- What some rules say about a path: the last one about it decides. -/
def verdictOf (rules : List IgnoreRule) (path : List UInt8) (isDirectory : Bool) : Verdict :=
  match rules.reverse.find? fun r => r.isAbout path isDirectory with
  | some r => r.verdict
  | none => .silent

end IgnoreRule

/-! ## Files of rules -/

/-- A complaint about one line of a file. -/
inductive LineError where
  /-- It is no rule. -/
  | badRule (error : IgnoreError)
  /-- It is no text.  No line behind it is read. -/
  | notText
  deriving DecidableEq, Repr, Inhabited

/-- What a user is told about a line. -/
def LineError.message : LineError → String
  | .badRule e => e.message
  | .notText => FileError.notText.message

/-- What a file of rules holds. -/
structure IgnoreFile where
  /-- Its rules, in order. -/
  rules : List IgnoreRule
  /-- The lines that are none, by their numbers. -/
  errors : List (Nat × LineError)
  deriving Inhabited

namespace IgnoreFile

/-- A file that holds nothing. -/
def empty : IgnoreFile := ⟨[], []⟩

/-- A line without a carriage return at its end. -/
def stripReturn (line : Text) : Text :=
  if line.getLast? = some '\r' then line.dropLast else line

/-- Take in the lines from the one with number `row` on; the last one cannot
be read when `broken` is set. -/
def ofLines (broken : Bool) (row : Nat) : List Text → IgnoreFile
  | [] => ⟨[], if broken then [(row, .notText)] else []⟩
  | line :: lines =>
    let after := ofLines broken (row + 1) lines
    match IgnoreRule.ofLine .lenient line with
    | .ok none => after
    | .ok (some r) => { after with rules := r :: after.rules }
    | .error e => { after with errors := (row, .badRule e) :: after.errors }

/-- Bytes split at line feeds. -/
def splitBytes : List UInt8 → List (List UInt8)
  | [] => [[]]
  | b :: bs =>
    if b = 10 then [] :: splitBytes bs
    else
      match splitBytes bs with
      | [] => [[b]]
      | l :: ls => (b :: l) :: ls

/-- The lines of some bytes, up to the first that is no text, and whether
there is one. -/
def textLines : List (List UInt8) → List Text × Bool
  | [] => ([], false)
  | l :: ls =>
    match Contents.ofBytes l with
    | .text t => let after := textLines ls; (t :: after.1, after.2)
    | .binary _ => ([], true)

/-- The first lines of a file, and whether it goes on with one that is no
text. -/
def linesOf : Contents → List Text × Bool
  | .text t => (t.lines, false)
  | .binary bytes => textLines (splitBytes bytes)

/-- The lines of a file without byte order marks at its start. -/
def dropMarks : List Text → List Text
  | [] => []
  | l :: ls => l.dropWhile (· == '\uFEFF') :: ls

/-- What the contents of a file hold. -/
def ofContents (c : Contents) : IgnoreFile :=
  let lines := linesOf c
  ofLines lines.2 1 (dropMarks (lines.1.map stripReturn))

/-- The rules at some names, none when there is no file. -/
def read (fs : Files) (names : List String) : IgnoreFile :=
  match fs.found? names with
  | some (.file c) => ofContents c
  | _ => empty

/-- What a user is told about the errors of a file.  That it cannot be read as
text does not count when nothing else is wrong. -/
def complaints (f : IgnoreFile) (file : Path) : List String :=
  match f.errors with
  | [(_, .notText)] => []
  | errors =>
    errors.map fun e => file.spelling ++ ": line " ++ toString e.1 ++ ": " ++ e.2.message

end IgnoreFile

end WebLint
