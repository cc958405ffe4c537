import WebLint.Text.Location
import WebLint.Tree

/-!
# Sheets

The tree of a stylesheet tells dozens of constructs apart.  To say which
declarations stand under which selectors three are enough: blocks behind an
at-keyword, blocks behind selectors, and declarations, in the order they were
written.
-/

namespace WebLint

/-- A declaration of a property. -/
structure Declaration where
  /-- The property. -/
  property : String
  /-- Its value as written, without an `!important` behind it. -/
  value : String
  /-- The bytes of the declaration, up to the semicolon behind it. -/
  span : Span
  /-- Where it starts. -/
  location : Location
  deriving DecidableEq, Repr, Inhabited

/-- The text that two declarations share when one repeats the other. -/
def Declaration.key (d : Declaration) : String := d.property ++ ": " ++ d.value

/-- A part of a sheet. -/
inductive StyleNode where
  /-- A block behind an at-keyword, or one frame of an animation.  It has no
  selectors of its own. -/
  | atRule (name : String) (children : List StyleNode)
  /-- A block behind selectors. -/
  | rule (selectors : List String) (items : List StyleNode)
  /-- A declaration. -/
  | declaration (declaration : Declaration)
  deriving Repr, Inhabited

/-- A sheet: its parts in the order they were written. -/
abbrev Sheet := List StyleNode

namespace Sheet

/-! ## Declarations -/

/-- Whether a node is a comment, in either of the two notations. -/
def isComment (n : Node) : Bool := n.kind == "comment" || n.kind == "js_comment"

/-- The words of a declaration's value: what is named behind the first colon,
without comments and `!important`. -/
def valueWords (children : List Node) : List Node :=
  ((children.dropWhile (·.kind != ":")).drop 1).filter fun n =>
    n.isNamed && n.kind != "important" && !isComment n

/-- The value of a declaration, from its first word to its last. -/
def valueText (t : Text) (children : List Node) : Text :=
  let words := valueWords children
  match words.head?, words.getLast? with
  | some first, some last => (t.at ⟨first.start, last.stop⟩).trim
  | _, _ => []

/-- Where a declaration ends when the semicolon behind it does not count. -/
def declarationStop (property : Node) (children : List Node) : Nat :=
  ((children.filter (·.kind != ";")).map (·.stop)).foldl max property.stop

/-- The declaration a node stands for, if it names a property. -/
def declaration? (t : Text) (n : Node) : Option Declaration :=
  (n.childOfKind "property_name").map fun property =>
    { property := property.string t
      value := String.ofList (valueText t n.children)
      span := ⟨n.start, declarationStop property n.children⟩
      location := Location.ofOffset t n.start }

/-! ## Selectors and at-keywords -/

/-- The selectors of a style rule, each as written. -/
def selectorTexts (t : Text) (children : List Node) : List String :=
  match children.find? fun n => n.isNamed && n.kind == "selectors" with
  | some selectors =>
    (selectors.namedChildren.filter fun n => !isComment n).map fun n =>
      String.ofList (n.text t).trim
  | none => []

/-- The text of the first of some nodes, the at-keyword of a statement. -/
def firstText (t : Text) (children : List Node) : String :=
  match children with
  | n :: _ => n.string t
  | [] => ""

/-- Whether there is a block among some nodes. -/
def hasBlock (children : List Node) : Bool :=
  children.any fun n => n.isNamed && n.kind == "block"

/-! ## Building -/

mutual

/-- What the children of a stylesheet or of a block stand for. -/
def items (t : Text) : List Node → Sheet
  | [] => []
  | n :: ns => statement t n ++ items t ns

/-- What one statement stands for.  Statements without a block, such as
`@import`, hold no declarations. -/
def statement (t : Text) : Node → Sheet
  | .mk l cs =>
    if !l.named then []
    else if l.kind = "declaration" then
      ((declaration? t (.mk l cs)).map StyleNode.declaration).toList
    else if l.kind = "rule_set" then [.rule (selectorTexts t cs) (blockItems t cs)]
    else if l.kind = "keyframes_statement" then [.atRule (firstText t cs) (frames t cs)]
    else if isComment (.mk l cs) then []
    else if hasBlock cs then [.atRule (firstText t cs) (blockItems t cs)]
    else []

/-- What the first block among some nodes holds. -/
def blockItems (t : Text) : List Node → Sheet
  | [] => []
  | .mk l cs :: ns => if l.named && l.kind == "block" then items t cs else blockItems t ns

/-- The frames of an animation, in the first list of frames among some
nodes. -/
def frames (t : Text) : List Node → Sheet
  | [] => []
  | .mk l cs :: ns =>
    if l.named && l.kind == "keyframe_block_list" then frameBlocks t cs else frames t ns

/-- The frames among some nodes.  A frame is named by its offset. -/
def frameBlocks (t : Text) : List Node → Sheet
  | [] => []
  | .mk l cs :: ns =>
    (if l.named && l.kind == "keyframe_block" then
      [.atRule (firstText t (cs.filter (·.isNamed))) (blockItems t cs)]
    else []) ++ frameBlocks t ns

end

/-- The sheet of the tree of a stylesheet. -/
def ofTree (t : Text) (root : Node) : Sheet := items t root.children

end Sheet

end WebLint
