import WebLint.Diagnostic
import WebLint.Tree.Cursor

/-!
# Redundant semicolons

A statement that ends its line needs no semicolon, unless the next line would
be read as its continuation.
-/

namespace WebLint
namespace Semicolon

/-- The statements that may end with a semicolon. -/
def terminated : List String :=
  ["expression_statement", "lexical_declaration", "variable_declaration", "return_statement",
    "throw_statement", "break_statement", "continue_statement", "debugger_statement",
    "import_statement", "export_statement", "do_statement"]

/-- The characters a line that continues the one before it may start with. -/
def continuing : List Char := ['[', '(', '\x60', '+', '-', '/']

/-- Whether a token would continue the statement before it. -/
def continues (t : Text) (token : Node) : Bool :=
  match token.text t with
  | c :: _ => continuing.contains c
  | [] => false

/-- Whether a semicolon can be left out. -/
def isRedundant (t : Text) (semicolon : Cursor) : Bool :=
  match semicolon.nextToken? with
  | none => true
  | some next =>
    if next.kind = "\x7d" then true
    else if t.row next.start = t.row semicolon.node.stop then false
    else !continues t next

/-- The semicolon a statement ends with.  One that was only supplied by the
parser covers no bytes and does not count. -/
def ofStatement? (t : Text) (statement : Cursor) : Option Cursor :=
  statement.children.getLast?.filter fun c =>
    c.node.kind == ";" && c.node.text t == [';']

/-- Whether a statement stands in the head of a loop, where semicolons are
part of the syntax. -/
def isLoopHead (statement : Cursor) : Bool :=
  statement.parentKind? == some "for_statement" ||
    statement.parentKind? == some "for_in_statement"

/-- A statement with a semicolon that can be left out. -/
def ofStatement (t : Text) (statement : Cursor) : Option Violation :=
  if isLoopHead statement then none
  else
    (ofStatement? t statement).bind fun semicolon =>
      if isRedundant t semicolon then
        let span := semicolon.node.span
        some
          { rule := .semi
            message := "Extra semicolon."
            span := span
            fix := some (.delete span) }
      else none

end Semicolon
end WebLint
