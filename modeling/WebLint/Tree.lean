import WebLint.Language

/-!
# Concrete trees

What a parser makes of a text: a tree of nodes, each with a kind, the bytes it
covers, and, inside its parent, perhaps the name of the field it fills.  Named
nodes are the constructs of the grammar, the others its punctuation.  Comments
are named nodes, and stand wherever they were written.
-/

namespace WebLint

/-- A range of bytes. -/
structure Span where
  /-- The first byte. -/
  start : Nat
  /-- The byte after the last one. -/
  stop : Nat
  deriving DecidableEq, Repr, Inhabited

/-- The bytes of a text a span covers. -/
def Text.at (t : Text) (s : Span) : Text := t.slice s.start s.stop

/-- What a node is, apart from its children. -/
structure Label where
  /-- The construct, or the text of a token that is not named. -/
  kind : String
  /-- Whether it is a construct of the grammar. -/
  named : Bool
  /-- The field it fills in its parent. -/
  field : Option String
  /-- The bytes it covers. -/
  span : Span
  deriving DecidableEq, Repr, Inhabited

/-- A node with its children, in order. -/
inductive Node where
  | mk (label : Label) (children : List Node)
  deriving Repr, Inhabited

namespace Node

/-- What a node is. -/
def label : Node → Label
  | .mk l _ => l

/-- The children of a node: named ones and tokens, comments included. -/
def children : Node → List Node
  | .mk _ cs => cs

/-- The kind of a node. -/
def kind (n : Node) : String := n.label.kind

/-- Whether a node is a construct of the grammar. -/
def isNamed (n : Node) : Bool := n.label.named

/-- The field a node fills in its parent. -/
def field (n : Node) : Option String := n.label.field

/-- The bytes a node covers. -/
def span (n : Node) : Span := n.label.span

/-- The first byte of a node. -/
def start (n : Node) : Nat := n.span.start

/-- The byte after the last one of a node. -/
def stop (n : Node) : Nat := n.span.stop

/-- The text of a node. -/
def text (n : Node) (t : Text) : Text := t.at n.span

/-- The text of a node, as a string. -/
def string (n : Node) (t : Text) : String := String.ofList (n.text t)

/-- The named children of a node. -/
def namedChildren (n : Node) : List Node := n.children.filter (·.isNamed)

/-- The first child that fills a field. -/
def childByField (n : Node) (name : String) : Option Node :=
  n.children.find? (·.field == some name)

/-- The first named child of a kind. -/
def childOfKind (n : Node) (kind : String) : Option Node :=
  n.namedChildren.find? (·.kind == kind)

mutual

/-- The nodes of a tree, each before its children. -/
def preorder : Node → List Node
  | .mk l cs => .mk l cs :: preorderAll cs

/-- The nodes of several trees, one tree after the other. -/
def preorderAll : List Node → List Node
  | [] => []
  | n :: ns => n.preorder ++ preorderAll ns

end

mutual

/-- The nodes of a tree that have no children, from left to right. -/
def leaves : Node → List Node
  | .mk l [] => [.mk l []]
  | .mk _ (c :: cs) => c.leaves ++ leavesAll cs

/-- The nodes of several trees that have no children. -/
def leavesAll : List Node → List Node
  | [] => []
  | n :: ns => n.leaves ++ leavesAll ns

end

end Node

/-! ## Grammars and parses -/

/-- The grammars texts are parsed with. -/
inductive Grammar where
  /-- Stylesheets. -/
  | css
  /-- Scripts. -/
  | javascript
  /-- Markup. -/
  | html
  deriving DecidableEq, Repr, Inhabited

/-- The grammar of a language. -/
def Language.grammar : Language → Grammar
  | .style => .css
  | .script => .javascript

/-- What parsing gives: a tree for any text, and whether it holds errors. -/
structure Parse where
  /-- Whether some part of the text is no construct of the grammar. -/
  hasError : Bool
  /-- The root of the tree. -/
  root : Node
  deriving Repr, Inhabited

/-- A parser for all grammars.  It reads a whole text, or only some ranges of
it, which are then parsed as one text; offsets are those of the whole text. -/
abbrev Parser := Grammar → Text → Option (List Span) → Parse

end WebLint
