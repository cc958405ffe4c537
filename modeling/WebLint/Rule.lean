import WebLint.Language

/-!
# Rules

The rules a document is checked against.  Each has a name, the language it is
about, and a fix status: the violations of some rules can be repaired without
changing what the document means.

What is proved here:

* `ofName_name` and `ofName_eq_some_iff` — a rule is found by exactly its name;
* `name_inj` — no two rules have one name;
* `mem_all` — the list of all rules misses none.
-/

namespace WebLint

/-- The rules, in the order they are listed in. -/
inductive Rule where
  | noDuplicateDeclarations
  | indentation
  | stringQuotes
  | propertyNoVendorPrefix
  | atRuleNoVendorPrefix
  | selectorNoVendorPrefix
  | valueNoVendorPrefix
  | mediaFeatureNameNoVendorPrefix
  | noFuncKeyword
  | indent
  | semi
  | noDebugger
  | eqeqeq
  | noEval
  | noWith
  | noEmpty
  | useIsnan
  deriving DecidableEq, Repr, Inhabited

/-- Whether the violations of a rule can be repaired. -/
inductive FixStatus where
  /-- They are only reported. -/
  | none
  /-- They can be repaired without changing the meaning. -/
  | safe
  deriving DecidableEq, Repr, Inhabited

namespace Rule

/-- Every rule, in order. -/
def all : List Rule :=
  [.noDuplicateDeclarations, .indentation, .stringQuotes, .propertyNoVendorPrefix,
   .atRuleNoVendorPrefix, .selectorNoVendorPrefix, .valueNoVendorPrefix,
   .mediaFeatureNameNoVendorPrefix, .noFuncKeyword, .indent, .semi, .noDebugger, .eqeqeq,
   .noEval, .noWith, .noEmpty, .useIsnan]

/-- The name of a rule. -/
def name : Rule → String
  | .noDuplicateDeclarations => "no-duplicate-declarations"
  | .indentation => "indentation"
  | .stringQuotes => "string-quotes"
  | .propertyNoVendorPrefix => "property-no-vendor-prefix"
  | .atRuleNoVendorPrefix => "at-rule-no-vendor-prefix"
  | .selectorNoVendorPrefix => "selector-no-vendor-prefix"
  | .valueNoVendorPrefix => "value-no-vendor-prefix"
  | .mediaFeatureNameNoVendorPrefix => "media-feature-name-no-vendor-prefix"
  | .noFuncKeyword => "no-func-keyword"
  | .indent => "indent"
  | .semi => "semi"
  | .noDebugger => "no-debugger"
  | .eqeqeq => "eqeqeq"
  | .noEval => "no-eval"
  | .noWith => "no-with"
  | .noEmpty => "no-empty"
  | .useIsnan => "use-isnan"

/-- The language a rule is about. -/
def language : Rule → Language
  | .noDuplicateDeclarations | .indentation | .stringQuotes | .propertyNoVendorPrefix
  | .atRuleNoVendorPrefix | .selectorNoVendorPrefix | .valueNoVendorPrefix
  | .mediaFeatureNameNoVendorPrefix => .style
  | .noFuncKeyword | .indent | .semi | .noDebugger | .eqeqeq | .noEval | .noWith | .noEmpty
  | .useIsnan => .script

/-- The fix status of a rule. -/
def fixStatus : Rule → FixStatus
  | .indentation | .stringQuotes | .indent | .semi => .safe
  | _ => .none

/-- Whether the violations of a rule can be repaired. -/
def hasSafeFix (r : Rule) : Bool := r.fixStatus == .safe

/-- Whether the violations of a rule are only reported. -/
def hasNoFix (r : Rule) : Bool := r.fixStatus == .none

/-- The rule of a name. -/
def ofName (text : String) : Option Rule := all.find? (·.name == text)

/-- The place of a rule in the list of all rules. -/
def position (r : Rule) : Nat := all.idxOf r

/-- The list of all rules misses none. -/
theorem mem_all (r : Rule) : r ∈ all := by
  cases r <;> simp [all]

/-- A rule is found by its name. -/
theorem ofName_name (r : Rule) : ofName r.name = some r := by
  cases r <;> rfl

/-- A rule is found by nothing but its name. -/
theorem ofName_eq_some_iff {text : String} {r : Rule} :
    ofName text = some r ↔ r.name = text := by
  constructor
  · intro h
    simpa using List.find?_some h
  · rintro rfl
    exact ofName_name r

/-- No two rules have one name. -/
theorem name_inj {r r' : Rule} : r.name = r'.name ↔ r = r' := by
  rw [← ofName_eq_some_iff, ofName_name, Option.some.injEq]
  exact eq_comm

end Rule

/-- A list of rules to check. -/
abbrev RuleSet := List Rule

namespace RuleSet

/-- The rules of one language. -/
def forLanguage (rules : RuleSet) (language : Language) : RuleSet :=
  rules.filter (·.language == language)

end RuleSet

end WebLint
