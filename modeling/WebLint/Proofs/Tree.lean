import WebLint.Tree.Table

/-!
# Trees written out

Small trees for the texts that examples are about, node by node, as a parser
would give them.  A construct has a kind of its own; a token is punctuation,
and its text is its kind.
-/

namespace WebLint
namespace Node

/-- A construct of the grammar that covers the bytes `start..stop`. -/
def construct (kind : String) (start stop : Nat) (children : List Node := []) : Node :=
  .mk ⟨kind, true, none, ⟨start, stop⟩⟩ children

/-- A token that starts at the byte `start`. -/
def token (text : String) (start : Nat) : Node :=
  .mk ⟨text, false, none, ⟨start, start + Text.byteLength text.toList⟩⟩ []

end Node
end WebLint
