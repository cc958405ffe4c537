import WebLint.Text

/-!
# JSON

Values of the JSON data format.  A number is kept as it is written, an object
keeps its fields in the order they are written.
-/

namespace WebLint

/-- A JSON value. -/
inductive Json where
  /-- The value `null`. -/
  | null
  /-- A truth value. -/
  | bool (value : Bool)
  /-- A number, as it is written. -/
  | number (literal : Text)
  /-- A text. -/
  | string (text : Text)
  /-- A list of values. -/
  | array (items : List Json)
  /-- Named values. -/
  | object (fields : List (Text × Json))
  deriving Repr, Inhabited

namespace Json

/-! ## Making values -/

/-- The value of a natural number. -/
def ofNat (n : Nat) : Json := .number (Nat.toDigits 10 n)

/-- The value of a text. -/
def ofString (s : String) : Json := .string s.toList

/-- An object with some fields. -/
def ofFields (fields : List (String × Json)) : Json :=
  .object (fields.map fun f => (f.1.toList, f.2))

/-! ## Reading values -/

/-- The natural number written as a literal. -/
def natOf (literal : Text) : Option Nat := (String.ofList literal).toNat?

/-- The natural number a value is. -/
def nat? : Json → Option Nat
  | .number literal => natOf literal
  | _ => none

/-- The truth value a value is. -/
def bool? : Json → Option Bool
  | .bool b => some b
  | _ => none

/-- The text a value is. -/
def text? : Json → Option Text
  | .string t => some t
  | _ => none

/-- The list a value is. -/
def array? : Json → Option (List Json)
  | .array items => some items
  | _ => none

/-- The value of a field. -/
def field? (j : Json) (name : String) : Option Json :=
  match j with
  | .object fields => (fields.find? fun f => f.1 == name.toList).map (·.2)
  | _ => none

end Json

end WebLint
