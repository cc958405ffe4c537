import WebLint.Json

/-!
# Reading JSON

Any text in the JSON data format is read, whichever way it is laid out.  Texts
that break its rules are refused as a whole.
-/

namespace WebLint
namespace Json

/-- The characters that may stand between two tokens. -/
def isGap (c : Char) : Bool := c == ' ' || c == '\t' || c == '\n' || c == '\r'

/-- The text after the gap at its start. -/
def skipGap (t : Text) : Text := t.dropWhile isGap

/-! ## Numbers -/

/-- The text after the digits at its start, if there is one. -/
def digits? (t : Text) : Option Text :=
  let rest := t.dropWhile Char.isDigit
  if rest.length < t.length then some rest else none

/-- The text after a whole number without a sign.  Only zero starts with a
zero. -/
def whole? : Text → Option Text
  | '0' :: rest => some rest
  | t => digits? t

/-- The text after a fraction, if there is one. -/
def skipFraction : Text → Option Text
  | '.' :: rest => digits? rest
  | t => some t

/-- The text after an exponent, if there is one. -/
def skipExponent : Text → Option Text
  | c :: rest =>
    if c = 'e' ∨ c = 'E' then
      match rest with
      | '+' :: rest => digits? rest
      | '-' :: rest => digits? rest
      | rest => digits? rest
    else some (c :: rest)
  | [] => some []

/-- The text after a number. -/
def skipNumber (t : Text) : Option Text :=
  let unsigned := match t with
    | '-' :: rest => rest
    | t => t
  ((whole? unsigned).bind skipFraction).bind skipExponent

/-- A number at the start of a text, and the text after it. -/
def number? (t : Text) : Option (Json × Text) :=
  (skipNumber t).map fun rest => (.number (t.take (t.length - rest.length)), rest)

/-! ## Texts -/

/-- The value of a digit of a number written to the base sixteen. -/
def hexValue (c : Char) : Option Nat :=
  if c.isDigit then some (c.toNat - '0'.toNat)
  else if 'a' ≤ c ∧ c ≤ 'f' then some (c.toNat - 'a'.toNat + 10)
  else if 'A' ≤ c ∧ c ≤ 'F' then some (c.toNat - 'A'.toNat + 10)
  else none

/-- The number four digits to the base sixteen stand for. -/
def hexUnit (a b c d : Char) : Option Nat := do
  return (((← hexValue a) * 16 + (← hexValue b)) * 16 + (← hexValue c)) * 16 + (← hexValue d)

/-- The character a letter behind a backslash stands for. -/
def escaped? (c : Char) : Option Char :=
  if c = '\"' ∨ c = '\\' ∨ c = '/' then some c
  else if c = 'b' then some '\x08'
  else if c = 'f' then some '\x0c'
  else if c = 'n' then some '\n'
  else if c = 'r' then some '\r'
  else if c = 't' then some '\t'
  else none

/-- The code units of a text up to the quote that closes it, and what stands
behind the quote.  A character that is not escaped is one unit. -/
def units? : Text → Option (List Nat × Text)
  | [] => none
  | '\"' :: rest => some ([], rest)
  | '\\' :: 'u' :: a :: b :: c :: d :: rest => do
    let unit ← hexUnit a b c d
    let (units, rest) ← units? rest
    return (unit :: units, rest)
  | '\\' :: c :: rest => do
    let unit ← escaped? c
    let (units, rest) ← units? rest
    return (unit.toNat :: units, rest)
  | c :: rest =>
    if c.toNat < 32 ∨ c = '\\' then none
    else do
      let (units, rest) ← units? rest
      return (c.toNat :: units, rest)

/-- Whether a unit is the first half of a pair. -/
def isHigh (u : Nat) : Bool := 0xD800 ≤ u && u < 0xDC00

/-- Whether a unit is the second half of a pair. -/
def isLow (u : Nat) : Bool := 0xDC00 ≤ u && u < 0xE000

/-- The characters some units stand for.  Halves come in pairs only. -/
def charsOf : List Nat → Option Text
  | [] => some []
  | [u] => if isHigh u || isLow u then none else some [Char.ofNat u]
  | u :: v :: us =>
    if isHigh u then
      if isLow v then
        (charsOf us).map fun t =>
          Char.ofNat (0x10000 + (u - 0xD800) * 0x400 + (v - 0xDC00)) :: t
      else none
    else if isLow u then none
    else (charsOf (v :: us)).map fun t => Char.ofNat u :: t

/-- A text behind the quote that opens it, and what stands behind the quote
that closes it. -/
def quoted? (t : Text) : Option (Text × Text) := do
  let (units, rest) ← units? t
  let text ← charsOf units
  return (text, rest)

/-! ## Values -/

/-- What follows the characters of a word at the start of a text. -/
def word? (word t : Text) : Option Text :=
  if word.isPrefixOf t then some (t.drop word.length) else none

mutual

/-- A value at the start of a text, and the text after it.  Each value inside
another takes one unit of fuel. -/
def value? : Nat → Text → Option (Json × Text)
  | 0, _ => none
  | fuel + 1, t =>
    match skipGap t with
    | '\"' :: rest => (quoted? rest).map fun p => (.string p.1, p.2)
    | '[' :: rest =>
      match skipGap rest with
      | ']' :: rest => some (.array [], rest)
      | rest => (items? fuel rest).map fun p => (.array p.1, p.2)
    | '\x7b' :: rest =>
      match skipGap rest with
      | '\x7d' :: rest => some (.object [], rest)
      | rest => (fields? fuel rest).map fun p => (.object p.1, p.2)
    | rest =>
      match word? "null".toList rest with
      | some rest => some (.null, rest)
      | none =>
        match word? "true".toList rest with
        | some rest => some (.bool true, rest)
        | none =>
          match word? "false".toList rest with
          | some rest => some (.bool false, rest)
          | none => number? rest

/-- The values of a list that is not empty, and the text after it. -/
def items? : Nat → Text → Option (List Json × Text)
  | 0, _ => none
  | fuel + 1, t => do
    let (item, rest) ← value? fuel t
    match skipGap rest with
    | ',' :: rest => (items? fuel rest).map fun p => (item :: p.1, p.2)
    | ']' :: rest => some ([item], rest)
    | _ => none

/-- The fields of an object that is not empty, and the text after it. -/
def fields? : Nat → Text → Option (List (Text × Json) × Text)
  | 0, _ => none
  | fuel + 1, t =>
    match skipGap t with
    | '\"' :: rest => do
      let (name, rest) ← quoted? rest
      match skipGap rest with
      | ':' :: rest =>
        let (item, rest) ← value? fuel rest
        match skipGap rest with
        | ',' :: rest => (fields? fuel rest).map fun p => ((name, item) :: p.1, p.2)
        | '\x7d' :: rest => some ([(name, item)], rest)
        | _ => none
      | _ => none
    | _ => none

end

/-- The value a whole text stands for. -/
def parse? (t : Text) : Option Json :=
  match value? (t.length + 1) t with
  | some (j, rest) => if (skipGap rest).isEmpty then some j else none
  | none => none

end Json
end WebLint
