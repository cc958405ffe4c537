import WebLint.Text

/-!
# Locations

What a reader of a report is told: the row and the column of a byte offset.
Both start at 1, and the column counts characters, not bytes.
-/

namespace WebLint

/-- A place in a text, as a row and a column. -/
structure Location where
  /-- The number of the line, from 1. -/
  row : Nat
  /-- The number of the character in its line, from 1. -/
  column : Nat
  deriving DecidableEq, Repr, Inhabited

namespace Location

/-- The location of a byte offset.  An offset past the end of the text counts
as its end, and one inside a character as the start of that character. -/
def ofOffset (t : Text) (offset : Nat) : Location :=
  let before := t.takeBytes offset
  ⟨before.count '\n' + 1, (Text.lastLine before).length + 1⟩

/-- The location of findings that belong to no text yet. -/
def nowhere : Location := ⟨0, 0⟩

end Location

end WebLint
