import WebLint.Diagnostic

/-!
# Vendor prefixes

Browsers used to ship experimental features under names of their own, such as
`-webkit-box`.  Five rules look for them in properties, values, selectors,
media features and at-keywords.
-/

namespace WebLint
namespace VendorPrefix

/-- The beginnings browsers gave their names. -/
def beginnings : List Text := ["-webkit-", "-moz-", "-ms-", "-o-"].map String.toList

/-- Whether a name starts with one of them, in any case. -/
def isPrefixed (name : Text) : Bool :=
  let small := name.toLower
  beginnings.any fun b => b.isPrefixOf small

/-- What a user is told about a name that starts with one of them. -/
def message (name : Text) : String :=
  "Unexpected vendor-prefix \"" ++ String.ofList name ++ "\""

/-- The violation of a rule by a node with such a name. -/
def ofName (rule : Rule) (t : Text) (n : Node) : Option Violation :=
  if isPrefixed (n.text t) then
    some { rule := rule, message := message (n.text t), span := n.span }
  else none

/-! ## Where names are looked for -/

/-- Whether a node holds statements of its own. -/
def holdsStatements (kind : String) : Bool :=
  kind == "block" || kind == "keyframe_block_list"

mutual

/-- The named nodes of some kinds below a node, outer ones first.  Nodes that
hold statements are not entered. -/
def below (kinds : List String) : Node → List Node
  | .mk _ cs => among kinds cs

/-- The named nodes of some kinds among and below some nodes. -/
def among (kinds : List String) : List Node → List Node
  | [] => []
  | n :: ns =>
    (if n.isNamed && !holdsStatements n.kind then
      (if kinds.contains n.kind then [n] else []) ++ below kinds n
    else []) ++ among kinds ns

end

/-! ## The rules -/

/-- The property of a declaration. -/
def ofProperty (t : Text) (declaration : Node) : Option Violation :=
  match declaration.children with
  | property :: _ =>
    if property.kind = "property_name" then ofName .propertyNoVendorPrefix t property else none
  | [] => none

/-- The keywords and functions in the value of a declaration. -/
def ofValues (t : Text) (declaration : Node) : List Violation :=
  (below ["plain_value", "function_name"] declaration).filterMap
    (ofName .valueNoVendorPrefix t)

/-- The features a media query asks for. -/
def ofFeatures (t : Text) (query : Node) : List Violation :=
  (below ["feature_name"] query).filterMap (ofName .mediaFeatureNameNoVendorPrefix t)

/-- The colons of a pseudo-class or pseudo-element, and the name behind
them. -/
def pseudoName? (pseudo : Node) : Option (Node × Node) :=
  match pseudo.children.dropWhile fun n => n.isNamed || !(n.kind == ":" || n.kind == "::") with
  | colon :: name :: _ => some (colon, name)
  | _ => none

/-- A pseudo-class or pseudo-element.  What it applies to stands in front of
the colons and does not count. -/
def ofPseudo (t : Text) (pseudo : Node) : Option Violation :=
  (pseudoName? pseudo).bind fun (colon, name) =>
    if isPrefixed (name.text t) then
      let span : Span := ⟨colon.start, name.stop⟩
      some { rule := .selectorNoVendorPrefix, message := message (t.at span), span := span }
    else none

/-- The pseudo-classes and pseudo-elements in the selectors of a style rule. -/
def ofSelectors (t : Text) (rule : Node) : List Violation :=
  (below ["pseudo_class_selector", "pseudo_element_selector"] rule).filterMap (ofPseudo t)

/-- The at-keyword a statement starts with. -/
def ofAtKeyword (t : Text) (statement : Node) : Option Violation :=
  match statement.children with
  | keyword :: _ =>
    let name := keyword.text t
    if keyword.kind = "at_keyword" && isPrefixed (name.dropWhile (· == '@')) then
      some
        { rule := .atRuleNoVendorPrefix
          message := "Unexpected vendor-prefixed at-rule \"" ++ String.ofList name ++ "\""
          span := keyword.span }
    else none
  | [] => none

end VendorPrefix
end WebLint
