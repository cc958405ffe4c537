import WebLint.Preset
import WebLint.Text.Location
import WebLint.Tree

/-!
# Diagnostics and fixes

A diagnostic is a violation of a rule at a range of a file, perhaps with a fix
that would remove it.  Diagnostics are ordered by file and then by range, and
those that are equal in both keep the order they were found in.
-/

namespace WebLint

/-- Replace the bytes `start..stop` by a text. -/
structure Fix where
  /-- The first byte to replace. -/
  start : Nat
  /-- The byte after the last one to replace. -/
  stop : Nat
  /-- What stands there instead. -/
  content : Text
  deriving DecidableEq, Repr, Inhabited

/-- The fix that replaces a range. -/
def Fix.replace (s : Span) (content : Text) : Fix := ⟨s.start, s.stop, content⟩

/-- The fix that deletes a range. -/
def Fix.delete (s : Span) : Fix := .replace s []

/-- A violation, as the rule reports it. -/
structure Violation where
  /-- The rule. -/
  rule : Rule
  /-- What is wrong. -/
  message : String
  /-- Where. -/
  span : Span
  /-- How to repair it. -/
  fix : Option Fix := none
  deriving DecidableEq, Repr, Inhabited

/-- A violation together with the file it is in. -/
structure Diagnostic where
  /-- The rule. -/
  rule : Rule
  /-- What is wrong. -/
  message : String
  /-- The file. -/
  file : Path
  /-- The bytes of the file it is about. -/
  span : Span
  /-- Where the range starts. -/
  location : Location
  /-- The level of the rule. -/
  level : Level
  /-- How to repair it. -/
  fix : Option Fix
  deriving DecidableEq, Repr, Inhabited

namespace Diagnostic

/-- A violation before its file, place and level are known. -/
def ofViolation (v : Violation) : Diagnostic :=
  ⟨v.rule, v.message, ⟨""⟩, v.span, .nowhere, .error, v.fix⟩

/-- The order of diagnostics: by file, then by the start and the end of the
range. -/
def compare (a b : Diagnostic) : Ordering :=
  (Path.compare a.file b.file).then
    ((Ord.compare a.span.start b.span.start).then (Ord.compare a.span.stop b.span.stop))

/-- Whether `a` comes no later than `b`. -/
def le (a b : Diagnostic) : Bool := (compare a b).isLE

/-- Diagnostics in order. -/
def sort (ds : List Diagnostic) : List Diagnostic := ds.mergeSort le

end Diagnostic

end WebLint
