import WebLint.Json

/-!
# Printing JSON

One value or field a line, nested ones indented by two spaces.  Lists and
objects with nothing in them stay on one line.  In texts only quotes,
backslashes and the control characters of ASCII are escaped.

This stands for the pretty printer of the package `serde_json`, which is not
part of the program.  Assumed of it are this layout, these escapes, and that
numbers are written in decimal digits; that what it prints can be read back is
proved from them.
-/

namespace WebLint
namespace Json

/-- A digit of a number written to the base sixteen. -/
def hexDigit (n : Nat) : Char := "0123456789abcdef".toList.getD n '0'

/-- How one character of a text is written. -/
def escapeChar (c : Char) : Text :=
  if c = '\"' then ['\\', '\"']
  else if c = '\\' then ['\\', '\\']
  else if c = '\x08' then ['\\', 'b']
  else if c = '\t' then ['\\', 't']
  else if c = '\n' then ['\\', 'n']
  else if c = '\x0c' then ['\\', 'f']
  else if c = '\r' then ['\\', 'r']
  else if c.toNat < 32 then
    ['\\', 'u', '0', '0', hexDigit (c.toNat / 16), hexDigit (c.toNat % 16)]
  else [c]

/-- How a text is written. -/
def quote (t : Text) : Text := '\"' :: t.flatMap escapeChar ++ ['\"']

/-- The start of a new line nested `depth` levels deep. -/
def newLine (depth : Nat) : Text := '\n' :: List.replicate (2 * depth) ' '

mutual

/-- How a value is written that starts on a line nested `depth` levels
deep. -/
def print (depth : Nat) : Json → Text
  | .null => "null".toList
  | .bool true => "true".toList
  | .bool false => "false".toList
  | .number literal => literal
  | .string t => quote t
  | .array [] => "[]".toList
  | .array (j :: js) =>
    '[' :: newLine (depth + 1) ++ print (depth + 1) j ++ printItems (depth + 1) js ++
      newLine depth ++ [']']
  | .object [] => ['\x7b', '\x7d']
  | .object ((name, j) :: fs) =>
    '\x7b' :: newLine (depth + 1) ++ quote name ++ ": ".toList ++ print (depth + 1) j ++
      printFields (depth + 1) fs ++ newLine depth ++ ['\x7d']

/-- How the further values of a list are written. -/
def printItems (depth : Nat) : List Json → Text
  | [] => []
  | j :: js => ',' :: newLine depth ++ print depth j ++ printItems depth js

/-- How the further fields of an object are written. -/
def printFields (depth : Nat) : List (Text × Json) → Text
  | [] => []
  | (name, j) :: fs =>
    ',' :: newLine depth ++ quote name ++ ": ".toList ++ print depth j ++ printFields depth fs

end

/-- How a value is written that stands on its own. -/
def pretty (j : Json) : Text := print 0 j

end Json
end WebLint
