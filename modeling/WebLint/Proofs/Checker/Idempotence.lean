import WebLint.Proofs.Checker.Rounds
import WebLint.Proofs.Diagnostic
import WebLint.Proofs.Script.Repairs
import WebLint.Proofs.Style.Repairs
import WebLint.Proofs.Tree

/-!
# When repairing a file once is enough

A repair ends with the first round that skips no fix, and does not look whether
the fixes of that round have made new violations.  So it is only sometimes true
that nothing is left to repair, and that a second repair changes nothing: this
file says when.

What is proved here:

* `no_fixes_iff_isTidy` — nothing found in a text has a fix when the text is
  tidy;
* `lintFix_settles_iff` — a repair leaves nothing to repair, and repairing again
  changes nothing, exactly when the text it leaves is tidy;
* `lintFix_strayText` — which it need not be.
-/

namespace WebLint
namespace Checker

/-- Whether a text of a language is laid out as its rules with fixes want it. -/
def IsTidy (language : Language) (parser : Parser) (plan : Plan) (file : Path) (text : Text) :
    Prop :=
  let d := Document.ofFile parser file text language
  d.isEmpty = false → ∀ root, d.parse parser = .ok root →
    match language with
    | .style => StyleCheck.IsTidy d (plan.rules.forLanguage .style) plan.preset.options root
    | .script => ScriptCheck.IsTidy d (plan.rules.forLanguage .script) plan.preset.options root

variable {c : Checker} {parser : Parser} {plan : Plan} {file : Path} {fs : Files}

/-- The violations in a document have nothing to repair when it is tidy. -/
theorem noRepairs_iff_isTidy (hc : c ∈ builtin) {d : Document} {root : Node} {vs : List Violation}
    (h : c.analysis parser plan d root = .ok vs) :
    NoRepairs d vs ↔
      match c.language with
      | .style => StyleCheck.IsTidy d (plan.rules.forLanguage .style) plan.preset.options root
      | .script =>
        ScriptCheck.IsTidy d (plan.rules.forLanguage .script) plan.preset.options root := by
  rcases mem_builtin.1 hc with rfl | rfl
  · exact StyleCheck.noRepairs_iff_isTidy (StyleCheck.analyze_eq_ok_iff.1 h).2
  · exact ScriptCheck.noRepairs_iff_isTidy (ScriptCheck.analyze_eq_ok_iff.1 h).2

/-- Nothing found in a text has a fix when the text is tidy. -/
theorem no_fixes_iff_isTidy (hc : c ∈ builtin) {text : Text} {found : List Diagnostic}
    (h : (c.checkText parser plan file text).value = .ok found) :
    (∀ d ∈ found, d.fix = none) ↔ IsTidy c.language parser plan file text := by
  rcases checkText_eq_ok h with ⟨hempty, rfl⟩ | ⟨root, vs, hempty, hparse, hvs, rfl⟩
  · refine iff_of_true (fun d hd => absurd hd List.not_mem_nil) fun hfull => ?_
    rw [hempty] at hfull
    cases hfull
  · rw [no_fixes_iff, noRepairs_iff_isTidy hc hvs]
    constructor
    · intro htidy _ other hother
      rw [hparse] at hother
      rw [← Except.ok.inj hother]
      exact htidy
    · intro htidy
      exact htidy hempty root hparse

/-- **When one repair is enough.**  Of a repaired file nothing is left to repair,
and repairing it again changes nothing, exactly when the text that is left is
tidy. -/
theorem lintFix_settles_iff (c : Checker) (hc : c ∈ builtin) (parser : Parser) (plan : Plan)
    (file : Path) (fs : Files) (found : List Diagnostic)
    (h : (c.lintFix parser plan file fs).value.result = .ok found) :
    ∃ text, (c.lintFix parser plan file fs).value.files.read file = .ok text ∧
      (((∀ d ∈ found, d.fix = none) ∧
          (c.lintFix parser plan file (c.lintFix parser plan file fs).value.files).value.files =
            (c.lintFix parser plan file fs).value.files) ↔
        IsTidy c.language parser plan file text) := by
  obtain ⟨text, hread, hfound, -⟩ := lintFix_eq_ok h
  refine ⟨text, hread, ?_⟩
  rw [← no_fixes_iff_isTidy hc hfound]
  constructor
  · intro hsettled
    exact hsettled.1
  · intro hnone
    refine ⟨hnone, ?_⟩
    rw [lintFix_of_no_fixes hread hfound hnone]

/-! ### A stray semicolon -/

/-- The tree of the statement `a` at the start of a text, with the semicolon at
the byte `semicolon`, if it has one. -/
def statementA (semicolon : Option Nat) : Node :=
  match semicolon with
  | some n =>
    .construct "expression_statement" 0 (n + 1) [.construct "identifier" 0 1, .token ";" n]
  | none => .construct "expression_statement" 0 1 [.construct "identifier" 0 1]

/-- The tree of the statement `b` at the byte `start`. -/
def statementB (start : Nat) : Node :=
  .construct "expression_statement" start (start + 1) [.construct "identifier" start (start + 1)]

/-- A semicolon that ends a statement, and one that is a statement of its own. -/
def strayText : Text := "a;\n;\nb".toList

/-- Without the first semicolon, the second one ends the statement. -/
def strayOnce : Text := "a\n;\nb".toList

/-- Without either. -/
def strayTwice : Text := "a\n\nb".toList

/-- The trees of these scripts. -/
def strayTrees : ParseTable :=
  [⟨.javascript, strayText, none, ⟨false, .construct "program" 0 6
      [statementA (some 1), .construct "empty_statement" 3 4 [.token ";" 3], statementB 5]⟩⟩,
   ⟨.javascript, strayOnce, none, ⟨false, .construct "program" 0 5
      [statementA (some 2), statementB 4]⟩⟩,
   ⟨.javascript, strayTwice, none, ⟨false, .construct "program" 0 4
      [statementA none, statementB 3]⟩⟩]

/-- A preset with the rule about semicolons. -/
def semicolonPreset : Preset := Preset.setLevel {} .semi .error

/-- The plan to repair this script. -/
def strayPlan : Plan := ⟨[], [⟨"a.js"⟩], semicolonPreset.enabledRules, semicolonPreset, true⟩

/-- The redundant semicolon at an offset of a text. -/
def redundant (text : Text) (start : Nat) : Diagnostic where
  rule := .semi
  message := "Extra semicolon."
  file := ⟨"a.js"⟩
  span := ⟨start, start + 1⟩
  location := Location.ofOffset text start
  level := .error
  fix := some (.delete ⟨start, start + 1⟩)

/-- What is found in these scripts. -/
theorem checkText_strayText :
    (script.checkText strayTrees.parser strayPlan ⟨"a.js"⟩ strayText).value =
      .ok [redundant strayText 1] := by
  have hvalue : (script.checkText strayTrees.parser strayPlan ⟨"a.js"⟩ strayText).value =
      .ok (Diagnostic.sort [redundant strayText 1]) := rfl
  rw [hvalue, Diagnostic.sort_singleton]

theorem checkText_strayOnce :
    (script.checkText strayTrees.parser strayPlan ⟨"a.js"⟩ strayOnce).value =
      .ok [redundant strayOnce 2] := by
  have hvalue : (script.checkText strayTrees.parser strayPlan ⟨"a.js"⟩ strayOnce).value =
      .ok (Diagnostic.sort [redundant strayOnce 2]) := rfl
  rw [hvalue, Diagnostic.sort_singleton]

theorem checkText_strayTwice :
    (script.checkText strayTrees.parser strayPlan ⟨"a.js"⟩ strayTwice).value = .ok [] := by
  have hvalue : (script.checkText strayTrees.parser strayPlan ⟨"a.js"⟩ strayTwice).value =
      .ok (Diagnostic.sort []) := rfl
  rw [hvalue, Diagnostic.sort_nil]

/-- Each repair takes one round, in which nothing is skipped. -/
theorem rounds_strayText :
    script.Rounds strayTrees.parser strayPlan ⟨"a.js"⟩ 0 strayText strayOnce :=
  .last (round_of_single checkText_strayText rfl (by decide))

theorem rounds_strayOnce :
    script.Rounds strayTrees.parser strayPlan ⟨"a.js"⟩ 0 strayOnce strayTwice :=
  .last (round_of_single checkText_strayOnce rfl (by decide))

/-- A directory with one script. -/
def strayFiles (text : Text) : Files where
  cwd := ⟨"/work"⟩
  entries := [(["work", "a.js"], .text text)]

/-- The script is repaired in one round, without skipping a fix.  Then the other
semicolon is redundant, and goes when the script is repaired again. -/
theorem lintFix_strayText :
    let first := (script.lintFix strayTrees.parser strayPlan ⟨"a.js"⟩ (strayFiles strayText)).value
    let second := (script.lintFix strayTrees.parser strayPlan ⟨"a.js"⟩ first.files).value
    Preset.ofTables { script := [("semi", { level := .error })] } = .ok semicolonPreset ∧
      script.Rounds strayTrees.parser strayPlan ⟨"a.js"⟩ 0 strayText strayOnce ∧
      first.result = .ok [redundant strayOnce 2] ∧
      first.files.read ⟨"a.js"⟩ = .ok strayOnce ∧
      second.files.read ⟨"a.js"⟩ = .ok strayTwice ∧
      ¬ ((∀ d ∈ [redundant strayOnce 2], d.fix = none) ∧ second.files = first.files) := by
  intro first second
  have hread : (strayFiles strayText).read ⟨"a.js"⟩ = .ok strayText := rfl
  obtain ⟨hfirst, hafter⟩ := lintFix_of_rounds rounds_strayText (by decide) hread rfl
  have hresult : first.result = .ok [redundant strayOnce 2] := hfirst.trans checkText_strayOnce
  -- the repair has not changed what may be written
  have hwritable : first.files.refusal ⟨"a.js"⟩ = none := by
    obtain ⟨-, -, -, hkeeps⟩ := lintFix_eq_ok hresult
    exact (Files.refusal_congr hkeeps.toAlike _).trans rfl
  obtain ⟨-, hagain⟩ := lintFix_of_rounds rounds_strayOnce (by decide) hafter hwritable
  refine ⟨?_, rounds_strayText, hresult, hafter, hagain, ?_⟩
  · simp only [Preset.ofTables, Preset.sortEntries, List.mergeSort_nil, List.mergeSort_singleton]
    rfl
  · rintro ⟨hnone, -⟩
    have hfix := hnone (redundant strayOnce 2) List.mem_cons_self
    cases hfix

/-- Repairing the script with one semicolon leaves nothing to repair. -/
theorem lintFix_strayOnce :
    let first := (script.lintFix strayTrees.parser strayPlan ⟨"a.js"⟩ (strayFiles strayOnce)).value
    let second := (script.lintFix strayTrees.parser strayPlan ⟨"a.js"⟩ first.files).value
    script ∈ builtin ∧ first.result = .ok [] ∧
      ∃ text, first.files.read ⟨"a.js"⟩ = .ok text ∧
        (((∀ d ∈ ([] : List Diagnostic), d.fix = none) ∧ second.files = first.files) ↔
          IsTidy .script strayTrees.parser strayPlan ⟨"a.js"⟩ text) := by
  intro first second
  have hread : (strayFiles strayOnce).read ⟨"a.js"⟩ = .ok strayOnce := rfl
  have hc : script ∈ builtin := mem_builtin.2 (Or.inr rfl)
  have hresult : first.result = .ok [] :=
    (lintFix_of_rounds rounds_strayOnce (by decide) hread rfl).1.trans checkText_strayTwice
  exact ⟨hc, hresult, lintFix_settles_iff _ hc _ _ _ _ _ hresult⟩

end Checker
end WebLint
