import WebLint.Style.Duplicates
import WebLint.Style.Indentation
import WebLint.Style.Quotes
import WebLint.Style.VendorPrefix

/-!
# Checking stylesheets

The search for repeated declarations takes the whole sheet at once.  The other
rules look at one *spot* after the other: at each statement, and at each brace
that closes a block.
-/

namespace WebLint
namespace StyleCheck

/-! ## Spots -/

/-- A place the rules look at. -/
inductive Spot where
  /-- A statement nested in `depth` blocks. -/
  | statement (depth : Nat) (node : Node)
  /-- A closing brace that belongs to a statement nested in `depth` blocks. -/
  | brace (depth : Nat) (node : Node)
  deriving Inhabited

/-- The node of a spot. -/
def Spot.node : Spot → Node
  | .statement _ n => n
  | .brace _ n => n

/-- In how many blocks the statement of a spot is nested. -/
def Spot.depth : Spot → Nat
  | .statement depth _ => depth
  | .brace depth _ => depth

mutual

/-- The spots among the children of something nested in `depth` blocks. -/
def spots (depth : Nat) : List Node → List Spot
  | [] => []
  | .mk l cs :: ns =>
    (if l.named then .statement depth (.mk l cs) :: innerSpots depth cs
    else if l.kind = "\x7d" ∧ 0 < depth then [.brace (depth - 1) (.mk l cs)]
    else []) ++ spots depth ns

/-- The spots in the blocks among the children of a statement. -/
def innerSpots (depth : Nat) : List Node → List Spot
  | [] => []
  | .mk l cs :: ns =>
    (if l.named && VendorPrefix.holdsStatements l.kind then spots (depth + 1) cs else []) ++
      innerSpots depth ns

end

/-- Whether a node belongs to other statements than the one it is in. -/
def isInner (kind : String) : Bool :=
  VendorPrefix.holdsStatements kind || kind == "keyframe_block"

mutual

/-- The strings of a statement, without those of the statements in it. -/
def strings : Node → List Node
  | .mk _ cs => stringsAmong cs

/-- The strings among and below some nodes. -/
def stringsAmong : List Node → List Node
  | [] => []
  | n :: ns =>
    (if !n.isNamed || isInner n.kind then []
    else if n.kind = "string_value" then [n]
    else strings n) ++ stringsAmong ns

end

/-! ## Rules at a spot -/

/-- What a rule finds, when it is among those to check. -/
def whenEnabled (rules : RuleSet) (rule : Rule) (found : List Violation) : List Violation :=
  if rules.contains rule then found else []

/-- The violations of the rules about vendor prefixes in one statement. -/
def prefixViolations (t : Text) (rules : RuleSet) (n : Node) : List Violation :=
  (if n.kind = "declaration" then
    whenEnabled rules .propertyNoVendorPrefix (VendorPrefix.ofProperty t n).toList ++
      whenEnabled rules .valueNoVendorPrefix (VendorPrefix.ofValues t n)
  else if n.kind = "rule_set" then
    whenEnabled rules .selectorNoVendorPrefix (VendorPrefix.ofSelectors t n)
  else if n.kind = "media_statement" then
    whenEnabled rules .mediaFeatureNameNoVendorPrefix (VendorPrefix.ofFeatures t n)
  else []) ++
    whenEnabled rules .atRuleNoVendorPrefix (VendorPrefix.ofAtKeyword t n).toList

/-- The violations at one spot. -/
def violationsAt (d : Document) (rules : RuleSet) (o : RuleOptions) : Spot → List Violation
  | .brace depth n =>
    whenEnabled rules .indentation (StyleIndentation.ofNode d o.styleSpaces depth n).toList
  | .statement depth n =>
    whenEnabled rules .indentation (StyleIndentation.ofNode d o.styleSpaces depth n).toList ++
      prefixViolations d.text rules n ++
      whenEnabled rules .stringQuotes ((strings n).filterMap (Quotes.ofString d.text o.quote))

/-! ## The whole sheet -/

/-- The violations of a parsed stylesheet, whatever widths are asked for. -/
def violations (parser : Parser) (d : Document) (rules : RuleSet) (o : RuleOptions)
    (root : Node) : Logged (Except Failure (List Violation)) := do
  let found ← Duplicates.detect parser (Sheet.ofTree d.text root)
    (rules.contains .noDuplicateDeclarations)
  match found with
  | .error e => return .error (.malformedSelector d.file e)
  | .ok findings =>
    return .ok (findings.map Finding.toViolation ++
      (spots 0 root.children).flatMap (violationsAt d rules o))

/-- Whether the width that is asked for at a spot outgrows a machine word. -/
def overflowsAt (d : Document) (o : RuleOptions) (s : Spot) : Bool :=
  StyleIndentation.isChecked d s.node &&
    Indent.outgrows (StyleIndentation.expected d o.styleSpaces s.depth s.node)

/-- Whether a width that the rules ask for in a sheet outgrows a machine word. -/
def overflows (d : Document) (rules : RuleSet) (o : RuleOptions) (root : Node) : Bool :=
  rules.contains .indentation && (spots 0 root.children).any (overflowsAt d o)

/-- The analysis of a parsed stylesheet.  Behind the search for repeated
declarations it comes to an end at a width that outgrows a machine word. -/
def analyze (parser : Parser) (d : Document) (rules : RuleSet) (o : RuleOptions)
    (root : Node) : Logged (Except Failure (List Violation)) :=
  if overflows d rules o root then do
    match ← Duplicates.detect parser (Sheet.ofTree d.text root)
      (rules.contains .noDuplicateDeclarations) with
    | .error e => return .error (.malformedSelector d.file e)
    | .ok _ => return .error (.overflow d.file)
  else violations parser d rules o root

end StyleCheck
end WebLint
