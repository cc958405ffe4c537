import WebLint.Rule

/-!
# Presets

A preset says which rules are checked, how their violations are reported, and
how wide indentation is and which quotes strings take.  It is written as two
tables of entries, one for each language, and validated as a whole when it is
loaded: a rule that does not exist, a rule in the table of the other language,
an option given to a rule that does not take it and an indentation of no width
are all refused, the first offence found being the error.
-/

namespace WebLint

/-- How the violations of a rule are reported. -/
inductive Level where
  /-- The rule is not checked. -/
  | off
  /-- As warnings. -/
  | warn
  /-- As errors. -/
  | error
  deriving DecidableEq, Repr, Inhabited

/-- The name of a level. -/
def Level.name : Level → String
  | .off => "off"
  | .warn => "warn"
  | .error => "error"

/-- The level of a name. -/
def Level.ofName (text : String) : Option Level :=
  [Level.off, .warn, .error].find? (·.name == text)

/-- The delimiters of the strings of a stylesheet. -/
inductive Quote where
  /-- Apostrophes. -/
  | single
  /-- Double quotes. -/
  | double
  deriving DecidableEq, Repr, Inhabited

namespace Quote

/-- The delimiter itself. -/
def char : Quote → Char
  | .single => '\''
  | .double => '\"'

/-- The other delimiter. -/
def other : Quote → Quote
  | .single => .double
  | .double => .single

/-- The name of a delimiter. -/
def name : Quote → String
  | .single => "single"
  | .double => "double"

/-- The delimiter of a name. -/
def ofName (text : String) : Option Quote :=
  [Quote.single, .double].find? (·.name == text)

end Quote

/-- The options of the rules that take some. -/
structure RuleOptions where
  /-- Spaces for each level of nesting in stylesheets (`indentation`). -/
  styleSpaces : Nat := 2
  /-- The delimiter strings should have (`string-quotes`). -/
  quote : Quote := .single
  /-- Spaces for each level of nesting in scripts (`indent`). -/
  scriptSpaces : Nat := 4
  /-- Levels a `case` clause is nested in its `switch` (`indent`). -/
  switchCase : Nat := 0
  deriving DecidableEq, Repr, Inhabited

/-- What is written for one rule: a level and perhaps some options. -/
structure RuleEntry where
  /-- The level of the rule. -/
  level : Level
  /-- The option `spaces`. -/
  spaces : Option Nat := none
  /-- The option `quote`. -/
  quote : Option Quote := none
  /-- The option `switch-case`. -/
  switchCase : Option Nat := none
  deriving DecidableEq, Repr, Inhabited

/-- A preset as it is written: the entries of the two tables, by rule name. -/
structure PresetTables where
  /-- The table `[style]`. -/
  style : List (String × RuleEntry) := []
  /-- The table `[script]`. -/
  script : List (String × RuleEntry) := []
  deriving DecidableEq, Repr, Inhabited

/-- The options of an entry, by the name they are written with. -/
inductive OptionName where
  | spaces
  | switchCase
  | quote
  deriving DecidableEq, Repr, Inhabited

/-- The name of an option. -/
def OptionName.text : OptionName → String
  | .spaces => "spaces"
  | .switchCase => "switch-case"
  | .quote => "quote"

/-- Why a preset is refused. -/
inductive PresetError where
  /-- It is not made of tables of entries at all. -/
  | malformed
  /-- A table names a rule that does not exist. -/
  | unknownRule (table : Language) (name : String)
  /-- A table names a rule of the other language. -/
  | wrongTable (table : Language) (rule : Rule)
  /-- An entry has an option its rule does not take. -/
  | unexpectedOption (rule : Rule) (option : OptionName)
  /-- An entry asks for an indentation of no width. -/
  | zeroIndentation (rule : Rule)
  deriving DecidableEq, Repr, Inhabited

/-- What a user is told about a refused preset. -/
def PresetError.message : PresetError → String
  | .malformed => "Failed to parse the rule preset:"
  | .unknownRule table name =>
    "Unknown rule `" ++ name ++ "` in table `[" ++ table.name ++ "]` of the rule preset"
  | .wrongTable table rule =>
    "Rule `" ++ rule.name ++ "` is checked against " ++ rule.language.name
      ++ " files but is listed in table `[" ++ table.name ++ "]`"
  | .unexpectedOption rule option =>
    "Rule `" ++ rule.name ++ "` doesn't take the option `" ++ option.text ++ "`"
  | .zeroIndentation rule =>
    "Option `spaces` of rule `" ++ rule.name ++ "` must be at least 1"

/-- A validated preset. -/
structure Preset where
  /-- The level of every rule; a rule that is not listed is off. -/
  level : Rule → Level := fun _ => .off
  /-- The options of the rules that take some. -/
  options : RuleOptions := {}
  deriving Inhabited

namespace Preset

/-- Whether a rule is checked. -/
def isEnabled (p : Preset) (r : Rule) : Bool := p.level r != .off

/-- The rules that are checked, in order. -/
def enabledRules (p : Preset) : RuleSet := Rule.all.filter p.isEnabled

/-- The preset with another level for one rule. -/
def setLevel (p : Preset) (r : Rule) (l : Level) : Preset :=
  { p with level := fun r' => if r' = r then l else p.level r' }

/-- Take up the option `spaces` of an entry. -/
def applySpaces (r : Rule) (spaces : Option Nat) (o : RuleOptions) :
    Except PresetError RuleOptions :=
  match spaces, r with
  | none, _ => .ok o
  | some 0, .indentation => .error (.zeroIndentation r)
  | some 0, .indent => .error (.zeroIndentation r)
  | some n, .indentation => .ok { o with styleSpaces := n }
  | some n, .indent => .ok { o with scriptSpaces := n }
  | some _, _ => .error (.unexpectedOption r .spaces)

/-- Take up the option `switch-case` of an entry. -/
def applySwitchCase (r : Rule) (levels : Option Nat) (o : RuleOptions) :
    Except PresetError RuleOptions :=
  match levels, r with
  | none, _ => .ok o
  | some n, .indent => .ok { o with switchCase := n }
  | some _, _ => .error (.unexpectedOption r .switchCase)

/-- Take up the option `quote` of an entry. -/
def applyQuote (r : Rule) (quote : Option Quote) (o : RuleOptions) :
    Except PresetError RuleOptions :=
  match quote, r with
  | none, _ => .ok o
  | some q, .stringQuotes => .ok { o with quote := q }
  | some _, _ => .error (.unexpectedOption r .quote)

/-- Take up the options of an entry, in the order `spaces`, `switch-case`,
`quote`. -/
def applyOptions (r : Rule) (e : RuleEntry) (o : RuleOptions) :
    Except PresetError RuleOptions := do
  let o ← applySpaces r e.spaces o
  let o ← applySwitchCase r e.switchCase o
  applyQuote r e.quote o

/-- Take up one entry of the table of a language. -/
def addEntry (table : Language) (p : Preset) (entry : String × RuleEntry) :
    Except PresetError Preset :=
  match Rule.ofName entry.1 with
  | none => .error (.unknownRule table entry.1)
  | some r =>
    if r.language ≠ table then .error (.wrongTable table r)
    else do
      let options ← applyOptions r entry.2 p.options
      return { p with options }.setLevel r entry.2.level

/-- The entries of a table in the order of their names. -/
def sortEntries (entries : List (String × RuleEntry)) : List (String × RuleEntry) :=
  entries.mergeSort fun a b => decide (a.1 ≤ b.1)

/-- Validate a preset: the style table first, then the script table, each in
the order of the names. -/
def ofTables (t : PresetTables) : Except PresetError Preset := do
  let p ← (sortEntries t.style).foldlM (addEntry .style) {}
  (sortEntries t.script).foldlM (addEntry .script) p

/-- The preset every run of the command uses: all rules are errors,
indentation is two spaces wide and a `case` clause is nested one level. -/
def bundledTables : PresetTables where
  style :=
    [("no-duplicate-declarations", { level := .error }),
     ("indentation", { level := .error, spaces := some 2 }),
     ("string-quotes", { level := .error, quote := some .single }),
     ("property-no-vendor-prefix", { level := .error }),
     ("at-rule-no-vendor-prefix", { level := .error }),
     ("selector-no-vendor-prefix", { level := .error }),
     ("value-no-vendor-prefix", { level := .error }),
     ("media-feature-name-no-vendor-prefix", { level := .error })]
  script :=
    [("no-func-keyword", { level := .error }),
     ("indent", { level := .error, spaces := some 2, switchCase := some 1 }),
     ("semi", { level := .error }),
     ("no-debugger", { level := .error }),
     ("eqeqeq", { level := .error }),
     ("no-eval", { level := .error }),
     ("no-with", { level := .error }),
     ("no-empty", { level := .error }),
     ("use-isnan", { level := .error })]

/-- The bundled preset, validated. -/
def bundled : Except PresetError Preset := ofTables bundledTables

end Preset

end WebLint
