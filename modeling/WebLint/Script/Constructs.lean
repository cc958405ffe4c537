import WebLint.Diagnostic
import WebLint.Tree.Cursor

/-!
# Unwanted constructs

Rules that look at a single construct of a script: calls of `eval`, functions
written with the `function` keyword, `debugger` and `with` statements, and
blocks with nothing in them.
-/

namespace WebLint
namespace Constructs

/-! ## Statements -/

/-- A `debugger` statement. -/
def debugger (c : Cursor) : Violation :=
  { rule := .noDebugger
    message := "Unexpected 'debugger' statement."
    span := c.node.span }

/-- A `with` statement. -/
def withStatement (c : Cursor) : Violation :=
  { rule := .noWith
    message := "Unexpected use of 'with' statement."
    span := c.node.span }

/-! ## Calls -/

/-- The names of the global object. -/
def globalObjects : List Text := ["window", "global", "globalThis", "self"].map String.toList

/-- The name a call goes by: a plain one, or a property of the global
object. -/
def callee? (t : Text) (function : Node) : Option Node :=
  if function.kind = "identifier" then some function
  else if function.kind = "member_expression" then
    match function.childByField "object" with
    | some o => if globalObjects.contains (o.text t) then function.childByField "property" else none
    | none => none
  else none

/-- A call of `eval`. -/
def evalCall (t : Text) (call : Node) : Option Violation :=
  ((call.childByField "function").bind (callee? t)).bind fun callee =>
    if callee.text t = "eval".toList then
      some { rule := .noEval, message := "eval can be harmful.", span := callee.span }
    else none

/-! ## Functions -/

/-- A function written with the `function` keyword, unless it is the value of
a property, where `this` is the object. -/
def functionKeyword (c : Cursor) : Option Violation :=
  if c.parentKind? = some "pair" ∨ c.parentKind? = some "method_definition" then none
  else
    some
      { rule := .noFuncKeyword
        message := "Use an arrow function instead"
        span := c.node.span }

/-! ## Empty blocks -/

/-- The constructs whose block is the body of a function. -/
def functions : List String :=
  ["function_declaration", "function_expression", "function", "generator_function_declaration",
    "generator_function", "arrow_function", "method_definition"]

/-- The construct a block belongs to, and how it is called.  The body of a
function may be empty, and that of a `switch` stands for the whole of it. -/
def emptiable? (c : Cursor) : Option (String × Span) :=
  if c.node.kind = "statement_block" then
    match c.parentKind? with
    | some kind => if functions.contains kind then none else some ("block", c.node.span)
    | none => some ("block", c.node.span)
  else if c.node.kind = "switch_body" then
    c.parent?.map fun parent => ("switch", parent.node.span)
  else none

/-- A block with nothing in it, not even a comment. -/
def emptyBlock (c : Cursor) : Option Violation :=
  (emptiable? c).bind fun (what, span) =>
    if c.node.namedChildren.isEmpty then
      some { rule := .noEmpty, message := "Empty " ++ what ++ " statement.", span := span }
    else none

end Constructs
end WebLint
