import WebLint.Failure
import WebLint.Log
import WebLint.Script.Comparison
import WebLint.Script.Constructs
import WebLint.Script.Indentation
import WebLint.Script.Semicolon

/-!
# Checking scripts

The rule about indentation takes a script line by line.  The other rules look
at one named node after the other, each at the kinds it is about.
-/

namespace WebLint
namespace ScriptCheck

/-- What a rule finds at a node, when it is among those to check. -/
def foundBy (rules : RuleSet) (rule : Rule) (found : Option Violation) : List Violation :=
  if rules.contains rule then found.toList else []

/-- The violations in a statement that may end with a semicolon. -/
def statementViolations (t : Text) (rules : RuleSet) (c : Cursor) : List Violation :=
  (if c.node.kind = "debugger_statement" then
    foundBy rules .noDebugger (some (Constructs.debugger c))
  else []) ++ foundBy rules .semi (Semicolon.ofStatement t c)

/-- The violations at one node. -/
def violationsAt (t : Text) (rules : RuleSet) (c : Cursor) : List Violation :=
  let kind := c.node.kind
  if kind = "binary_expression" then
    foundBy rules .eqeqeq (Comparison.equality c.node) ++
      foundBy rules .useIsnan (Comparison.toNaN t c.node)
  else if kind = "call_expression" then foundBy rules .noEval (Constructs.evalCall t c.node)
  else if ["function_declaration", "function_expression", "function"].contains kind then
    foundBy rules .noFuncKeyword (Constructs.functionKeyword c)
  else if kind = "statement_block" ∨ kind = "switch_body" then
    foundBy rules .noEmpty (Constructs.emptyBlock c)
  else if kind = "with_statement" then foundBy rules .noWith (some (Constructs.withStatement c))
  else if Semicolon.terminated.contains kind then statementViolations t rules c
  else []

/-- The violations of a parsed script, whatever widths are asked for. -/
def violations (d : Document) (rules : RuleSet) (o : RuleOptions) (root : Node) :
    Logged (Except Failure (List Violation)) :=
  let lines := if rules.contains .indent then ScriptIndentation.violations d o root else []
  return .ok (lines ++ (Cursor.namedPlaces [] root).flatMap (violationsAt d.text rules))

/-- Whether a width that the rules ask for in a script outgrows a machine word. -/
def overflows (d : Document) (rules : RuleSet) (o : RuleOptions) (root : Node) : Bool :=
  rules.contains .indent && ScriptIndentation.overflows d o root

/-- The analysis of a parsed script.  It comes to an end at a width that outgrows a
machine word. -/
def analyze (d : Document) (rules : RuleSet) (o : RuleOptions) (root : Node) :
    Logged (Except Failure (List Violation)) :=
  if overflows d rules o root then return .error (.overflow d.file)
  else violations d rules o root

end ScriptCheck
end WebLint
