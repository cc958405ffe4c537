import WebLint.Json
import WebLint.Tree

/-!
# Tables of trees

The trees of some texts, made beforehand and written down as JSON.  A tree is
the list of its nodes, each before its children, and each with the number of
its children, from which the shape of the tree is found again.  A table is a
parser: it looks up what it is asked for.
-/

namespace WebLint

/-- The tree of one text, and how it was parsed. -/
structure TableEntry where
  /-- The grammar. -/
  grammar : Grammar
  /-- The text. -/
  text : Text
  /-- The ranges that were parsed, none for the whole text. -/
  ranges : Option (List Span)
  /-- The outcome. -/
  parse : Parse
  deriving Inhabited

/-- The trees of some texts. -/
abbrev ParseTable := List TableEntry

namespace ParseTable

/-- The outcome for a text that is not in a table. -/
def unknown : Parse := ⟨true, .mk ⟨"ERROR", true, none, ⟨0, 0⟩⟩ []⟩

/-- The parser that looks texts up in a table. -/
def parser (table : ParseTable) : Parser := fun grammar text ranges =>
  match table.find? fun e => e.grammar == grammar && e.ranges == ranges && e.text == text with
  | some e => e.parse
  | none => unknown

/-! ## Trees from their nodes -/

/-- A node and the number of its children. -/
abbrev Row := Label × Nat

/-- The first `count` trees of a list of nodes, and the nodes behind them.  A
node takes one unit of fuel. -/
def trees? : Nat → Nat → List Row → Option (List Node × List Row)
  | _, 0, rows => some ([], rows)
  | 0, _ + 1, _ => none
  | _ + 1, _ + 1, [] => none
  | fuel + 1, count + 1, row :: rows => do
    let (children, rows) ← trees? fuel row.2 rows
    let (others, rows) ← trees? fuel count rows
    return (.mk row.1 children :: others, rows)

/-- The tree of a list of nodes. -/
def tree? (rows : List Row) : Option Node :=
  match trees? (rows.length + 1) 1 rows with
  | some ([root], []) => some root
  | _ => none

/-! ## Tables from JSON -/

/-- The grammar of a name. -/
def grammarOf (name : Text) : Option Grammar :=
  if name = "css".toList then some .css
  else if name = "javascript".toList then some .javascript
  else if name = "html".toList then some .html
  else none

/-- A node written as a list: kind, whether it is named (1) or not (0), field,
first byte, byte after the last, number of children. -/
def row? (j : Json) : Option Row :=
  match j with
  | .array [kind, named, field, start, stop, count] => do
    let span : Span := ⟨← start.nat?, ← stop.nat?⟩
    let label : Label :=
      { kind := String.ofList (← kind.text?)
        named := (← named.nat?) == 1
        field := field.text?.map String.ofList
        span := span }
    return (label, ← count.nat?)
  | _ => none

/-- A span written as a list of two offsets. -/
def span? (j : Json) : Option Span :=
  match j with
  | .array [start, stop] => do return ⟨← start.nat?, ← stop.nat?⟩
  | _ => none

/-- The spans in a list, or none for `null`. -/
def ranges? (j : Json) : Option (Option (List Span)) :=
  match j with
  | .null => some none
  | .array items => (items.mapM span?).map some
  | _ => none

/-- The root of a tree written as the list of its nodes.  A tree with errors
may be left out. -/
def root? (j : Json) : Option Node :=
  match j with
  | .null => some unknown.root
  | .array items => (items.mapM row?).bind tree?
  | _ => none

/-- One entry of a table.  Texts are given by their number. -/
def entryOf? (texts : List Text) (j : Json) : Option TableEntry := do
  let grammar ← grammarOf (← (← j.field? "grammar").text?)
  let text ← texts[← (← j.field? "text").nat?]?
  let ranges ← ranges? (← j.field? "ranges")
  let hasError ← (← j.field? "has_error").bool?
  let root ← root? (← j.field? "tree")
  return { grammar, text, ranges, parse := ⟨hasError, root⟩ }

/-- The table a JSON value holds: a list of texts, and the list of their
trees. -/
def ofJson? (j : Json) : Option ParseTable := do
  let texts ← (← (← j.field? "texts").array?).mapM Json.text?
  (← (← j.field? "trees").array?).mapM (entryOf? texts)

end ParseTable

end WebLint
