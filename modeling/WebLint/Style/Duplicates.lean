import WebLint.Diagnostic
import WebLint.Log
import WebLint.Style.Selector
import WebLint.Style.Sheet

/-!
# Repeated declarations

A declaration repeats an earlier one of the same sheet when both give the same
value to the same property.  Only declarations directly behind selectors count,
and a repetition is excused when every selector in front of it describes a
state.  One malformed selector, wherever it stands, spoils the whole search.
-/

namespace WebLint

/-- A repeated declaration. -/
structure Finding where
  /-- What is wrong. -/
  message : String
  /-- The declaration that repeats an earlier one. -/
  declaration : Declaration
  /-- The rule it offends. -/
  rule : Rule
  deriving DecidableEq, Repr, Inhabited

namespace Finding

/-- The finding that a declaration repeats an earlier one. -/
def ofDeclaration (d : Declaration) : Finding :=
  ⟨"Expected no duplicate declarations. Found " ++ d.key, d, .noDuplicateDeclarations⟩

/-- A finding, as a violation. -/
def toViolation (f : Finding) : Violation :=
  { rule := f.rule, message := f.message, span := f.declaration.span }

end Finding

/-! ## Keys seen so far -/

/-- The keys of the declarations seen so far. -/
structure SeenKeys where
  /-- The keys, the latest first. -/
  keys : List String := []
  deriving DecidableEq, Repr, Inhabited

namespace SeenKeys

/-- Whether a key has been seen. -/
def contains (s : SeenKeys) (key : String) : Bool := s.keys.contains key

/-- Take note of a key. -/
def insert (s : SeenKeys) (key : String) : SeenKeys := ⟨key :: s.keys⟩

/-- For each of some keys, whether it has been seen before. -/
def repeats (s : SeenKeys) : List String → List Bool
  | [] => []
  | key :: keys => s.contains key :: repeats (s.insert key) keys

end SeenKeys

namespace Duplicates

/-! ## Walking a sheet -/

/-- The style rule a declaration stands in. -/
structure Owner where
  /-- Its selectors. -/
  selectors : List String
  /-- Whether each of them describes a state. -/
  excused : Bool
  deriving DecidableEq, Repr, Inhabited

/-- What is met on a walk through a sheet. -/
inductive Visit where
  /-- A style rule, with what is said of its selectors. -/
  | rule (verdict : Except SelectorError Bool)
  /-- A declaration directly in a style rule. -/
  | declaration (owner : Owner) (declaration : Declaration)
  deriving Inhabited

/-- How selectors are judged: whether each describes a state. -/
abbrev Judge := List String → Except SelectorError Bool

/-- The owner a style rule is, going by what is said of its selectors. -/
def Owner.ofVerdict (selectors : List String) (verdict : Except SelectorError Bool) : Owner :=
  ⟨selectors, verdict.toOption.getD false⟩

mutual

/-- What is met in one part of a sheet that stands in `owner`. -/
def visitsOf (judge : Judge) (owner : Option Owner) : StyleNode → List Visit
  | .atRule _ children => visits judge none children
  | .rule selectors items =>
    let verdict := judge selectors
    .rule verdict :: visits judge (some (.ofVerdict selectors verdict)) items
  | .declaration d => (owner.map fun o => Visit.declaration o d).toList

/-- What is met in some parts of a sheet, in order. -/
def visits (judge : Judge) (owner : Option Owner) : List StyleNode → List Visit
  | [] => []
  | n :: ns => visitsOf judge owner n ++ visits judge owner ns

end

/-! ## The search -/

/-- What a search finds: the repetitions, up to the first malformed selector
if there is one. -/
structure Search where
  /-- The repetitions that are not excused, in order. -/
  found : List (Owner × Declaration)
  /-- The malformed selector that ended the search. -/
  error : Option SelectorError
  deriving Inhabited

/-- Search the rest of a walk, after some keys have been seen. -/
def search (seen : SeenKeys) : List Visit → Search
  | [] => ⟨[], none⟩
  | .rule (.error e) :: _ => ⟨[], some e⟩
  | .rule (.ok _) :: rest => search seen rest
  | .declaration owner d :: rest =>
    let after := search (seen.insert d.key) rest
    if seen.contains d.key && !owner.excused then { after with found := (owner, d) :: after.found }
    else after

/-- Search a whole sheet. -/
def searchSheet (judge : Judge) (sheet : Sheet) : Search := search {} (visits judge none sheet)

/-- What a search says: its findings, or the malformed selector. -/
def Search.findings (s : Search) : Except SelectorError (List Finding) :=
  match s.error with
  | some e => .error e
  | none => .ok (s.found.map fun f => .ofDeclaration f.2)

/-- What a search logs. -/
def Search.events (s : Search) : List Event :=
  s.found.map fun f =>
    ⟨.trace, .duplicates,
      "Repeated `" ++ f.2.key ++ "` under `" ++ ", ".intercalate f.1.selectors ++ "`"⟩

/-- The repeated declarations of a sheet, if they are looked for at all. -/
def detect (parser : Parser) (sheet : Sheet) (enabled : Bool) :
    Logged (Except SelectorError (List Finding)) :=
  if enabled then
    let s := searchSheet (Selector.judge parser) sheet
    ⟨s.events, s.findings⟩
  else ⟨[], .ok []⟩

end Duplicates

end WebLint
