import WebLint.Files
import WebLint.Language

/-!
# Failures

Why a checker cannot say anything about its files.  A failure has a chain of
causes, the outermost first, and is told as one line.
-/

namespace WebLint

/-- A selector that is none when it stands on its own. -/
structure SelectorError where
  /-- The selector. -/
  selector : String
  deriving DecidableEq, Repr, Inhabited

/-- What a user is told about a malformed selector. -/
def SelectorError.message (e : SelectorError) : String :=
  "Malformed selector `" ++ e.selector ++ "`"

/-- Why a checker fails. -/
inductive Failure where
  /-- A document is not written in its language. -/
  | malformed (file : Path)
  /-- A document holds a selector that is none on its own. -/
  | malformedSelector (file : Path) (error : SelectorError)
  /-- The regions of a document overlap or are out of order. -/
  | invalidRegions (language : Language) (file : Path)
  /-- A file cannot be read. -/
  | unreadable (file : Path) (error : FileError)
  /-- A file cannot be written. -/
  | unwritable (file : Path) (error : FileError)
  /-- An indentation outgrows a machine word while a document is checked. -/
  | overflow (file : Path)
  /-- The checker itself gives up; its causes, the outermost first. -/
  | crashed (causes : List String)
  deriving DecidableEq, Repr, Inhabited

namespace Failure

/-- What a user is told about a document that is not written in its language. -/
def malformedText (file : Path) : String :=
  "Failed to parse " ++ file.spelling ++ " due to syntax errors."

/-- Whether a failure stops the whole program, and not only the checker. -/
def isFatal : Failure → Bool
  | .overflow _ => true
  | _ => false

/-- The causes of a failure, the outermost first.  There are none to tell when the
program stops. -/
def causes : Failure → List String
  | .malformed file => [malformedText file]
  | .malformedSelector file error => [malformedText file, error.message]
  | .invalidRegions language file =>
    ["Invalid " ++ language.name ++ " regions in " ++ file.spelling]
  | .unreadable file error => ["Failed to read file: " ++ file.spelling, error.message]
  | .unwritable file error => ["Failed to write file: " ++ file.spelling, error.message]
  | .overflow _ => []
  | .crashed causes => causes

/-- A failure, told as one line. -/
def message (f : Failure) : String := ": ".intercalate f.causes

end Failure

end WebLint
