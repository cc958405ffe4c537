import WebLint.Tree

/-!
# Cursors

A cursor is a node together with its place in the tree: the way up to the
root, each step with the parent and the number of the child.  Two nodes of a
tree that look the same are told apart by their places, and a cursor knows
what stands around its node: parents, siblings, and all that follows.
-/

namespace WebLint

/-- One step of the way up from a node: its parent, and which child it is. -/
structure Step where
  /-- The parent. -/
  parent : Node
  /-- The number of the child, from 0. -/
  index : Nat
  deriving Repr, Inhabited

/-- A node at its place in a tree. -/
structure Cursor where
  /-- The node. -/
  node : Node
  /-- The way up to the root, from the nearest parent on. -/
  above : List Step
  deriving Repr, Inhabited

namespace Cursor

/-- The place of the parent. -/
def parent? (c : Cursor) : Option Cursor :=
  match c.above with
  | [] => none
  | s :: above => some ⟨s.parent, above⟩

/-- The parents of a node, from the nearest one on. -/
def ancestors (c : Cursor) : List Node := c.above.map (·.parent)

/-- The kind of the parent. -/
def parentKind? (c : Cursor) : Option String := c.above.head?.map (·.parent.kind)

/-- The places of the children. -/
def children (c : Cursor) : List Cursor :=
  c.node.children.mapIdx fun i n => ⟨n, ⟨c.node, i⟩ :: c.above⟩

/-- Whether the node is the last child of its parent. -/
def isLastChild (c : Cursor) : Bool :=
  match c.above with
  | [] => false
  | s :: _ => s.index + 1 == s.parent.children.length

/-- Whether the node is the one that fills a field of its parent. -/
def fills (c : Cursor) (name : String) : Bool :=
  match c.above with
  | [] => false
  | s :: _ => s.parent.children.findIdx? (·.field == some name) == some s.index

/-- The trees that follow along the way up: the later siblings of the node,
then those of its parent, and so on. -/
def following (c : Cursor) : List Node :=
  c.above.flatMap fun s => s.parent.children.drop (s.index + 1)

/-- The first token after the node that covers some bytes and is no comment. -/
def nextToken? (c : Cursor) : Option Node :=
  (Node.leavesAll c.following).find? fun n => n.kind != "comment" && n.start != n.stop

/-! ## Walks -/

mutual

/-- The named nodes of a tree at their places, each before its children.  The
root counts whether named or not. -/
def namedPlaces (above : List Step) : Node → List Cursor
  | .mk l cs => ⟨.mk l cs, above⟩ :: namedPlacesBelow (.mk l cs) above 0 cs

/-- The named nodes among the children of `parent` from the one with number
`index` on. -/
def namedPlacesBelow (parent : Node) (above : List Step) (index : Nat) :
    List Node → List Cursor
  | [] => []
  | n :: ns =>
    (if n.isNamed then namedPlaces (⟨parent, index⟩ :: above) n else []) ++
      namedPlacesBelow parent above (index + 1) ns

end

mutual

/-- The smallest node that spans the bytes `start..stop`.  Children that end
before `stop`, or no later than `start`, are passed over; the first other one
is entered when it starts no later than `start`. -/
def narrow (start stop : Nat) (above : List Step) : Node → Cursor
  | .mk l cs => (narrowBelow start stop (.mk l cs) above 0 cs).getD ⟨.mk l cs, above⟩

/-- The smallest such node below the children of `parent` from the one with
number `index` on, if one of them is entered. -/
def narrowBelow (start stop : Nat) (parent : Node) (above : List Step) (index : Nat) :
    List Node → Option Cursor
  | [] => none
  | n :: ns =>
    if n.stop < stop || n.stop ≤ start then
      narrowBelow start stop parent above (index + 1) ns
    else if n.start ≤ start then some (narrow start stop (⟨parent, index⟩ :: above) n)
    else none

end

/-- The smallest node of a tree that spans the bytes `start..stop`. -/
def spanning (root : Node) (start stop : Nat) : Cursor := narrow start stop [] root

/-- The largest node that starts where this one does, below the whole
program. -/
def widen (node : Node) : List Step → Cursor
  | [] => ⟨node, []⟩
  | s :: above =>
    if s.parent.start ≠ node.start ∨ s.parent.kind = "program" then ⟨node, s :: above⟩
    else widen s.parent above

end Cursor

end WebLint
