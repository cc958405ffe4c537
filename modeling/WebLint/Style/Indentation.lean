import WebLint.Diagnostic
import WebLint.Document
import WebLint.Text.Indent

/-!
# Indentation of stylesheets

A statement or a closing brace that starts a line is indented by a fixed
number of spaces for each block around it, on top of the indentation of its
region.
-/

namespace WebLint
namespace StyleIndentation

/-- What stands in front of a node in its line. -/
abbrev lead (d : Document) (n : Node) : Text := Text.lastLine (d.text.takeBytes n.start)

/-- Whether the rule looks at a node: it starts a line, in a part of the document. -/
def isChecked (d : Document) (n : Node) : Bool :=
  (lead d n).all Indent.isBlank && d.contains (n.start - (lead d n).byteLength) n.start

/-- The width that something nested in `depth` blocks should be indented by. -/
def expected (d : Document) (spaces depth : Nat) (n : Node) : Nat :=
  Indent.nested (d.baseIndent n.start) depth spaces

/-- A node that starts a line with another indentation than that of something
nested in `depth` blocks. -/
def ofNode (d : Document) (spaces depth : Nat) (n : Node) : Option Violation :=
  let indent := lead d n
  let lineStart := n.start - indent.byteLength
  let width := expected d spaces depth n
  if !isChecked d n then none
  else if Indent.isFitting indent width then none
  else
    let lineStop := n.start + (Text.firstLine (d.text.dropBytes n.start)).byteLength
    some
      { rule := .indentation
        message := "Expected indentation of " ++ toString width ++ " spaces"
        span := ⟨n.start, min n.stop lineStop⟩
        fix := some (.replace ⟨lineStart, n.start⟩ (Indent.spaces width)) }

end StyleIndentation
end WebLint
