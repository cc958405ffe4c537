import WebLint.Diagnostic

/-!
# Quotes

The strings of a stylesheet should all have the same delimiters.  A string
that holds the preferred delimiter is left alone, since it would have to be
escaped; an escaped delimiter of the other kind needs no escape any more once
the delimiters have changed.
-/

namespace WebLint
namespace Quotes

/-- A text in which `delimiter` is no longer escaped. -/
def unescape (delimiter : Char) : Text → Text
  | [] => []
  | [c] => [c]
  | c :: d :: rest =>
    if c = '\\' ∧ d = delimiter then d :: unescape delimiter rest
    else c :: unescape delimiter (d :: rest)

/-- What stands between two delimiters. -/
def inside? (delimiter : Char) : Text → Option Text
  | [] => none
  | c :: rest =>
    if c = delimiter ∧ rest.getLast? = some delimiter then some rest.dropLast else none

/-- A string with the expected delimiters, unless it has them already or holds
them. -/
def requote? (expected : Quote) (literal : Text) : Option Text :=
  (inside? expected.other.char literal).bind fun inner =>
    if inner.contains expected.char then none
    else some (expected.char :: unescape expected.other.char inner ++ [expected.char])

/-- A string with other delimiters than expected. -/
def ofString (t : Text) (expected : Quote) (literal : Node) : Option Violation :=
  (requote? expected (literal.text t)).map fun quoted =>
    { rule := .stringQuotes
      message := "Expected " ++ expected.name ++ " quotes"
      span := literal.span
      fix := some (.replace literal.span quoted) }

end Quotes
end WebLint
