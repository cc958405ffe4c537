import WebLint.Preset

/-!
# Settings

What a configuration file holds before it is known to be a preset: texts,
numbers, lists and tables.  `PresetTables.ofSetting` reads the two tables of a
preset out of it and refuses whatever has no place there.
-/

namespace WebLint

/-- A value of a configuration file. -/
inductive Setting where
  /-- No value at all. -/
  | absent
  /-- A text. -/
  | text (value : String)
  /-- A whole number that is not negative. -/
  | number (value : Nat)
  /-- A list. -/
  | list (items : List Setting)
  /-- A table, in the order it was written. -/
  | table (fields : List (String × Setting))
  /-- Any other value: no option of a preset takes one. -/
  | other
  deriving Repr, Inhabited

namespace Setting

/-- A name from a fixed choice: either the text itself, or a table whose only
field has that name and no value. -/
def choice {α : Type} (ofName : String → Option α) : Setting → Option α
  | .text name => ofName name
  | .table [(name, .absent)] => ofName name
  | _ => none

/-- An option that may be left out, or have no value. -/
def optional {α : Type} (read : Setting → Option α) : Option Setting → Option (Option α)
  | none => some none
  | some .absent => some none
  | some s => (read s).map some

/-- A number that fits in a machine word. -/
def word : Setting → Option Nat
  | .number n => if n < UInt64.size then some n else none
  | _ => none

/-- The value of a field. -/
def field (fields : List (String × Setting)) (name : String) : Option Setting :=
  (fields.find? (·.1 == name)).map (·.2)

/-- The options of an entry, from the values of its four fields. -/
def entryOfFields (level : Setting) (spaces quote switchCase : Option Setting) :
    Option RuleEntry := do
  let level ← choice Level.ofName level
  let spaces ← optional word spaces
  let quote ← optional (choice Quote.ofName) quote
  let switchCase ← optional word switchCase
  return { level, spaces, quote, switchCase }

/-- The names of the fields of an entry, in the order a list gives them. -/
def entryFields : List String := ["level", "spaces", "quote", "switch-case"]

/-- An entry with options: a table of named fields, or a list of all four. -/
def detailedEntry : Setting → Option RuleEntry
  | .table fields =>
    if fields.all fun f => entryFields.contains f.1 then
      (field fields "level").bind fun level =>
        entryOfFields level (field fields "spaces") (field fields "quote")
          (field fields "switch-case")
    else none
  | .list [level, spaces, quote, switchCase] =>
    entryOfFields level (some spaces) (some quote) (some switchCase)
  | _ => none

/-- An entry: a bare level, or a level with options. -/
def ruleEntry (s : Setting) : Option RuleEntry :=
  match choice Level.ofName s with
  | some level => some { level }
  | none => detailedEntry s

/-- The entries of one table of a preset. -/
def ruleEntries : Option Setting → Option (List (String × RuleEntry))
  | none => some []
  | some (.table fields) => fields.mapM fun f => (ruleEntry f.2).map fun e => (f.1, e)
  | some _ => none

end Setting

namespace PresetTables

/-- The tables of a preset.  A field other than the two tables is refused. -/
def ofSetting : Setting → Except PresetError PresetTables
  | .table fields =>
    if fields.all fun f => ["style", "script"].contains f.1 then
      match Setting.ruleEntries (Setting.field fields "style"),
          Setting.ruleEntries (Setting.field fields "script") with
      | some style, some script => .ok { style, script }
      | _, _ => .error .malformed
    else .error .malformed
  | _ => .error .malformed

end PresetTables

namespace Preset

/-- The preset a configuration holds. -/
def ofSetting (s : Setting) : Except PresetError Preset := do
  ofTables (← PresetTables.ofSetting s)

end Preset

end WebLint
