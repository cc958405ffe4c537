import WebLint.Diagnostic
import WebLint.Document
import WebLint.Text.Indent
import WebLint.Tree.Cursor

/-!
# Indentation of scripts

Lines are checked from the first to the last.  A line that starts a statement,
an element of a list, a `case` clause, a member access or a closing bracket has
an expected indentation: that of the line its parent opens on, and some levels
more.  For a line already checked this is the *expected* indentation, not the
one it has, so that one round of fixes settles a whole script.  Other lines
are left alone.
-/

namespace WebLint
namespace ScriptIndentation

/-! ## Kinds of nodes -/

/-- The constructs whose elements are one level deeper than the line they open
on, and whose closing bracket is not. -/
def containers : List String :=
  ["statement_block", "class_body", "object", "object_pattern", "array", "array_pattern",
    "arguments", "formal_parameters", "switch_body", "named_imports", "export_clause"]

/-- The closing brackets. -/
def closingBrackets : List String := ["\x7d", "]", ")"]

/-- The constructs in which lines are left alone. -/
def literals : List String := ["string", "template_string", "regex", "comment"]

/-- Whether a node lies in a literal that starts before it. -/
def isInLiteral (token : Cursor) : Bool :=
  token.ancestors.any fun n => decide (n.start < token.node.start) && literals.contains n.kind

/-- Whether a node is the body of a construct whose body needs no braces, and
has none. -/
def isUnbracedBody (parent : Node) (c : Cursor) : Bool :=
  c.node.kind != "statement_block" &&
    if parent.kind = "if_statement" then c.fills "consequence"
    else if parent.kind = "else_clause" then c.node.kind != "else"
    else if ["for_statement", "for_in_statement", "while_statement", "do_statement"].contains
        parent.kind then
      c.fills "body"
    else false

/-! ## Expected indentation -/

/-- The expected indentation of the lines checked so far, by row. -/
abbrev Expected := List (Nat × Nat)

/-- The indentation of a line once it is fixed: the expected one, or the one
it has when it is not checked. -/
def indentOf (lines : List Text) (expected : Expected) (row : Nat) : Nat :=
  match expected.lookup row with
  | some width => width
  | none => (Indent.ofLine (lines.getD row [])).length

/-- The expected indentation of a line that starts with `place`, the largest
node to start there, in a parent that opens on a line indented by `opener`. -/
def expectedIn (d : Document) (o : RuleOptions) (opener : Nat) (parent : Node) (place : Cursor) :
    Option Nat :=
  let deeper (levels : Nat) := some (Indent.nested opener levels o.scriptSpaces)
  if closingBrackets.contains place.node.kind then
    if containers.contains parent.kind && place.isLastChild then some opener else none
  else if parent.kind = "program" then some (d.baseIndent place.node.start)
  else if parent.kind = "switch_body" then deeper o.switchCase
  else if parent.kind = "switch_case" ∨ parent.kind = "switch_default" then deeper 1
  else if containers.contains parent.kind then deeper 1
  else if parent.kind = "member_expression" ∧
      (place.node.kind = "." ∨ place.node.kind = "optional_chain") then
    deeper 1
  else if isUnbracedBody parent place then deeper 1
  else none

/-- The expected indentation of the line a token starts, if it has one. -/
def expectedAt (d : Document) (o : RuleOptions) (lines : List Text) (expected : Expected)
    (token : Cursor) : Option Nat :=
  let place := Cursor.widen token.node token.above
  match place.above with
  | [] => none
  | s :: _ =>
    let opener := indentOf lines expected (d.text.row s.parent.start)
    expectedIn d o opener s.parent place

/-- The token a line starts with, if the rule is about it. -/
def tokenAt (d : Document) (root : Node) (lineStart start : Nat) : Option Cursor :=
  if d.contains lineStart start then
    let token := Cursor.spanning root start (start + 1)
    if token.node.start = start ∧ token.node.kind ≠ "comment" ∧ !isInLiteral token then
      some token
    else none
  else none

/-! ## Lines -/

/-- An indentation, as a user is told about it. -/
def describe (indent : Text) : String :=
  let spaces := indent.count ' '
  let tabs := indent.count '\t'
  if 0 < spaces then toString spaces
  else if 0 < tabs then toString tabs ++ (if tabs = 1 then " tab" else " tabs")
  else "0"

/-- What a user is told about a line. -/
def message (expected : Nat) (indent : Text) : String :=
  "Expected indentation of " ++ toString expected ++
    (if expected = 1 then " space" else " spaces") ++ " but found " ++ describe indent ++ "."

/-- The violation of a line with the indentation `indent`, which starts at
`lineStart`, ends at `lineStop` and has `token` as its first token. -/
def violationOf (expected lineStart lineStop : Nat) (indent : Text) (token : Node) : Violation :=
  let start := lineStart + indent.byteLength
  { rule := .indent
    message := message expected indent
    span := ⟨start, min token.stop lineStop⟩
    fix := some (.replace ⟨lineStart, start⟩ (Indent.spaces expected)) }

/-- What one line adds: the expected indentation, when it is checked, and its
violation, when it has another one. -/
def checkLine (d : Document) (o : RuleOptions) (root : Node) (lines : List Text)
    (expected : Expected) (lineStart : Nat) (line : Text) : Option (Nat × Option Violation) :=
  let indent := Indent.ofLine line
  if Text.isBlank (line.drop indent.length) then none
  else
    (tokenAt d root lineStart (lineStart + indent.byteLength)).bind fun token =>
      (expectedAt d o lines expected token).map fun width =>
        (width,
          if Indent.isFitting indent width then none
          else some (violationOf width lineStart (lineStart + line.byteLength) indent token.node))

/-- The violations of the lines from the one with number `row` on. -/
def checkLines (d : Document) (o : RuleOptions) (root : Node) (lines : List Text) (row : Nat)
    (expected : Expected) : List (Nat × Text) → List Violation
  | [] => []
  | (lineStart, line) :: rest =>
    match checkLine d o root lines expected lineStart line with
    | none => checkLines d o root lines (row + 1) expected rest
    | some (width, found) =>
      found.toList ++ checkLines d o root lines (row + 1) ((row, width) :: expected) rest

/-- The violations of all lines of a script. -/
def violations (d : Document) (o : RuleOptions) (root : Node) : List Violation :=
  checkLines d o root d.text.lines 0 [] d.text.placedLines

/-! ## Widths -/

/-- The expected indentation of a line, if it is checked. -/
def lineWidth (d : Document) (o : RuleOptions) (root : Node) (lines : List Text)
    (expected : Expected) (lineStart : Nat) (line : Text) : Option Nat :=
  if Text.isBlank (line.dropWhile Indent.isBlank) then none
  else
    (tokenAt d root lineStart (lineStart + (Indent.ofLine line).byteLength)).bind
      (expectedAt d o lines expected)

/-- The expected indentations of the lines from the one with number `row` on, as far
as they are checked. -/
def widths (d : Document) (o : RuleOptions) (root : Node) (lines : List Text) (row : Nat)
    (expected : Expected) : List (Nat × Text) → List (Option Nat)
  | [] => []
  | (lineStart, line) :: rest =>
    match lineWidth d o root lines expected lineStart line with
    | none => none :: widths d o root lines (row + 1) expected rest
    | some width =>
      some width :: widths d o root lines (row + 1) ((row, width) :: expected) rest

/-- The expected indentations of the lines of a script, as far as they are checked. -/
def expectedWidths (d : Document) (o : RuleOptions) (root : Node) : List (Option Nat) :=
  widths d o root d.text.lines 0 [] d.text.placedLines

/-- Whether an expected indentation outgrows a machine word. -/
def overflows (d : Document) (o : RuleOptions) (root : Node) : Bool :=
  (expectedWidths d o root).any fun width => width.any Indent.outgrows

end ScriptIndentation
end WebLint
