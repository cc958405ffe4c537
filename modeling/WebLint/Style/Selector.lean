import WebLint.Failure
import WebLint.Tree

/-!
# Selectors

A selector on its own, taken apart into its components in the order they were
written.  What matters of a selector is whether it describes a *state* of an
element: the same declaration under `a:hover` and under `a:focus` is no
repetition, since the two hold at different times.
-/

namespace WebLint

/-- How the elements on the two sides of a combinator are related. -/
inductive Combinator where
  /-- One lies somewhere in the other: `a b`. -/
  | descendant
  /-- One lies directly in the other: `a > b`. -/
  | child
  /-- One directly follows the other: `a + b`. -/
  | nextSibling
  /-- One follows the other: `a ~ b`. -/
  | subsequentSibling
  deriving DecidableEq, Repr, Inhabited

/-- A component of a selector. -/
inductive SelectorPart where
  /-- Elements of a type. -/
  | type (name : String)
  /-- Any element. -/
  | universal
  /-- Elements with a class: `.name`. -/
  | hasClass (name : String)
  /-- The element with an id: `#name`. -/
  | hasId (name : String)
  /-- Elements with an attribute: `[name]`. -/
  | hasAttribute (name : String)
  /-- Elements in a state: `:name`. -/
  | pseudoClass (name : String)
  /-- A part of an element: `::name`. -/
  | pseudoElement (name : String)
  /-- The elements of the rule around this one: `&`. -/
  | nesting
  /-- A combinator between what stands before and behind it. -/
  | combinator (combinator : Combinator)
  deriving DecidableEq, Repr, Inhabited

namespace SelectorPart

/-- Whether a component describes a state of an element. -/
def isState : SelectorPart → Bool
  | .pseudoClass _ => true
  | .pseudoElement _ => true
  | _ => false

end SelectorPart

namespace Selector

/-- The combinator a node stands for. -/
def combinatorOf (kind : String) : Option Combinator :=
  if kind = "descendant_selector" then some .descendant
  else if kind = "child_selector" then some .child
  else if kind = "adjacent_sibling_selector" then some .nextSibling
  else if kind = "sibling_selector" then some .subsequentSibling
  else none

/-- The components of nodes that hold no others. -/
def simplePart (kind : String) (text : String) : Option SelectorPart :=
  if kind = "tag_name" then some (.type text)
  else if kind = "nesting_selector" then some .nesting
  else if kind = "universal_selector" then some .universal
  else if kind = "namespace_selector" then some (.type text)
  else none

/-- The component of a node that ends with a sigil and a name. -/
def namedPart (kind : String) (name : String) : Option SelectorPart :=
  if kind = "class_selector" then some (.hasClass name)
  else if kind = "id_selector" then some (.hasId name)
  else if kind = "attribute_selector" then some (.hasAttribute name)
  else if kind = "pseudo_class_selector" then some (.pseudoClass name)
  else if kind = "pseudo_element_selector" then some (.pseudoElement name)
  else none

/-- The name behind the sigil of a node: the first named child behind the
first one that is not named. -/
def nameOf (t : Text) (children : List Node) : String :=
  match (children.dropWhile (·.isNamed)).find? (·.isNamed) with
  | some n => n.string t
  | none => ""

/-! ## Components -/

mutual

/-- The components of a node.  A combinator stands between its operands, and a
compound selector ends with its own component, behind those of its base. -/
def parts (t : Text) : Node → List SelectorPart
  | .mk l cs =>
    match combinatorOf l.kind with
    | some c => joinedParts t c cs
    | none =>
      match simplePart l.kind (String.ofList (t.at l.span)) with
      | some part => [part]
      | none => baseParts t cs ++ (namedPart l.kind (nameOf t cs)).toList

/-- The components of the operands of a combinator, which is written behind
the first of them. -/
def joinedParts (t : Text) (c : Combinator) : List Node → List SelectorPart
  | [] => []
  | n :: ns =>
    if n.isNamed then parts t n ++ .combinator c :: allParts t ns
    else joinedParts t c ns

/-- The components of the base of a compound selector: of the nodes in front
of the sigil. -/
def baseParts (t : Text) : List Node → List SelectorPart
  | [] => []
  | n :: ns => if n.isNamed then parts t n ++ baseParts t ns else []

/-- The components of the named nodes of a list. -/
def allParts (t : Text) : List Node → List SelectorPart
  | [] => []
  | n :: ns => (if n.isNamed then parts t n else []) ++ allParts t ns

end

/-- The list of selectors in the tree of a single style rule. -/
def selectorsNode? (root : Node) : Option Node :=
  match root.namedChildren with
  | [rule] =>
    if rule.kind = "rule_set" then rule.namedChildren.head?.filter (·.kind == "selectors")
    else none
  | _ => none

/-- A selector in front of an empty block. -/
def inRule (selector : String) : Text := selector.toList ++ " \x7b\x7d".toList

/-- Whether there is no reading a text as a selector: it is blank, or would
close the rule it stands in. -/
def isHopeless (selector : String) : Bool :=
  Text.isBlank selector.toList || selector.toList.any fun c => c == '\x7b' || c == '\x7d'

/-- The components of a selector. -/
def parse (parser : Parser) (selector : String) : Except SelectorError (List SelectorPart) :=
  if isHopeless selector then .error ⟨selector⟩
  else
    let text := inRule selector
    let parse := parser .css text none
    if parse.hasError then .error ⟨selector⟩
    else
      match selectorsNode? parse.root with
      | some selectors => .ok (allParts text selectors.children)
      | none => .error ⟨selector⟩

/-! ## States -/

/-- Whether a selector has a component that describes a state. -/
def isStateQualified (parser : Parser) (selector : String) : Except SelectorError Bool :=
  (parse parser selector).map fun parts => parts.any SelectorPart.isState

/-- Whether each of some selectors describes a state.  All of them are parsed,
so that none is accepted unseen. -/
def allQualified (parser : Parser) : List String → Except SelectorError Bool
  | [] => .ok true
  | s :: ss => do
    let first ← isStateQualified parser s
    let rest ← allQualified parser ss
    return first && rest

/-- Whether there are selectors and each of them describes a state. -/
def judge (parser : Parser) (selectors : List String) : Except SelectorError Bool :=
  (allQualified parser selectors).map fun all => !selectors.isEmpty && all

end Selector

end WebLint
