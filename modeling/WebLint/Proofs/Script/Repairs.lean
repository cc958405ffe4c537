import WebLint.Proofs.Checker

/-!
# What is repaired in scripts

Two rules about scripts have fixes: the one about indentation and the one about
semicolons.  This file says, without mentioning violations, when neither of
them has anything left to repair in a script.

What is proved here:

* `ScriptIndentation.noRepairs_iff_isIndented` — the rule about indentation
  leaves alone the lines that are indented as expected;
* `Semicolon.noRepairs_iff_isTidy` — the rule about semicolons leaves alone the
  statements whose semicolon is needed;
* `ScriptCheck.noRepairs_iff_isTidy` — a script has nothing to repair when it is
  tidy.
-/

namespace WebLint

open Checker (NoRepairs noRepairs_append noRepairs_flatMap noRepairs_toList noRepairs_of_no_fix
  keepFix_eq_none_iff)

/-! ## Indentation -/

namespace ScriptIndentation

/-- The indentations of the lines that are checked, from the one with number
`row` on, each with the number of spaces that is expected. -/
def checkedLines (d : Document) (o : RuleOptions) (root : Node) (lines : List Text) (row : Nat)
    (expected : Expected) : List (Nat × Text) → List (Text × Nat)
  | [] => []
  | (lineStart, line) :: rest =>
    match checkLine d o root lines expected lineStart line with
    | none => checkedLines d o root lines (row + 1) expected rest
    | some (width, _) =>
      (Indent.ofLine line, width) ::
        checkedLines d o root lines (row + 1) ((row, width) :: expected) rest

/-- Whether every line of a script that is checked is indented as expected. -/
def IsIndented (d : Document) (o : RuleOptions) (root : Node) : Prop :=
  ∀ p ∈ checkedLines d o root d.text.lines 0 [] d.text.placedLines, p.1 = Indent.spaces p.2

variable {d : Document} {o : RuleOptions} {root : Node} {lines : List Text}

/-- Blanks stand in front of a line, and nothing else. -/
theorem all_isBlank_ofLine (line : Text) : (Indent.ofLine line).all Indent.isBlank = true := by
  rw [Indent.ofLine, List.all_takeWhile]

/-- A line that is checked lies in the document, and its violation is that it is
not indented as expected. -/
theorem checkLine_eq_some {expected : Expected} {lineStart width : Nat} {line : Text}
    {found : Option Violation}
    (h : checkLine d o root lines expected lineStart line = some (width, found)) :
    d.contains lineStart (lineStart + (Indent.ofLine line).byteLength) = true ∧
      ∃ token : Node, found =
        if Indent.isFitting (Indent.ofLine line) width then none
        else some (violationOf width lineStart (lineStart + line.byteLength)
          (Indent.ofLine line) token) := by
  unfold checkLine at h
  simp only at h
  split at h
  · cases h
  obtain ⟨token, htoken, h⟩ := Option.bind_eq_some_iff.1 h
  obtain ⟨w, -, h⟩ := Option.map_eq_some_iff.1 h
  obtain ⟨rfl, rfl⟩ := Prod.mk.inj h
  refine ⟨?_, token.node, rfl⟩
  unfold tokenAt at htoken
  split at htoken
  · assumption
  · cases htoken

/-- The rule has nothing to repair at a line that is indented as expected. -/
theorem noRepairs_checkLine {expected : Expected} {lineStart width : Nat} {line : Text}
    {found : Option Violation}
    (h : checkLine d o root lines expected lineStart line = some (width, found)) :
    NoRepairs d found.toList ↔ Indent.ofLine line = Indent.spaces width := by
  obtain ⟨hin, token, rfl⟩ := checkLine_eq_some h
  rw [← Indent.isFitting_iff (all_isBlank_ofLine line), noRepairs_toList]
  by_cases hfits : Indent.isFitting (Indent.ofLine line) width = true
  · simp [hfits]
  · simp only [hfits, Bool.false_eq_true, if_false, Option.some.injEq, forall_eq', iff_false]
    rw [keepFix_eq_none_iff rfl rfl]
    simpa [Fix.replace] using hin

theorem noRepairs_checkLines {row : Nat} {expected : Expected} {placed : List (Nat × Text)} :
    NoRepairs d (checkLines d o root lines row expected placed) ↔
      ∀ p ∈ checkedLines d o root lines row expected placed, p.1 = Indent.spaces p.2 := by
  induction placed generalizing row expected with
  | nil => simp [checkLines, checkedLines, NoRepairs]
  | cons place placed ih =>
    obtain ⟨lineStart, line⟩ := place
    rw [checkLines, checkedLines]
    cases hline : checkLine d o root lines expected lineStart line with
    | none => exact ih
    | some checked =>
      obtain ⟨width, found⟩ := checked
      simp only [noRepairs_append, noRepairs_checkLine hline, ih, List.forall_mem_cons]

/-- The rule has nothing to repair in a script that is indented as expected. -/
theorem noRepairs_iff_isIndented : NoRepairs d (violations d o root) ↔ IsIndented d o root :=
  noRepairs_checkLines

end ScriptIndentation

/-! ## Semicolons -/

namespace Semicolon

/-- Whether the semicolon of a statement, if it lies in the document, is
needed. -/
def IsTidy (d : Document) (statement : Cursor) : Prop :=
  isLoopHead statement = false → ∀ s, ofStatement? d.text statement = some s →
    d.contains s.node.start s.node.stop = true → isRedundant d.text s = false

/-- What is found at a statement is its semicolon, which can be left out. -/
theorem ofStatement_eq_some {t : Text} {c : Cursor} {v : Violation}
    (h : ofStatement t c = some v) :
    v.rule = .semi ∧ ∃ s, ofStatement? t c = some s ∧ isRedundant t s = true ∧
      v.span = s.node.span ∧ v.fix = some (.delete s.node.span) := by
  unfold ofStatement at h
  split at h
  · cases h
  obtain ⟨s, hs, h⟩ := Option.bind_eq_some_iff.1 h
  split at h
  · rename_i hredundant
    rw [← Option.some.inj h]
    exact ⟨rfl, s, hs, hredundant, rfl, rfl⟩
  · cases h

/-- The rule has nothing to repair at a statement whose semicolon is needed. -/
theorem noRepairs_iff_isTidy {d : Document} {statement : Cursor} :
    NoRepairs d (ofStatement d.text statement).toList ↔ IsTidy d statement := by
  rw [noRepairs_toList]
  unfold ofStatement IsTidy
  cases isLoopHead statement with
  | true => simp
  | false =>
    cases hs : ofStatement? d.text statement with
    | none => simp
    | some s =>
      cases hredundant : isRedundant d.text s with
      | false => simp [hredundant]
      | true =>
        simp only [Bool.false_eq_true, if_false, Option.bind_some, hredundant, if_true,
          Option.some.injEq, forall_eq', forall_const]
        rw [keepFix_eq_none_iff rfl rfl]
        simp [Fix.delete, Fix.replace, Node.start, Node.stop]

end Semicolon

/-! ## Rules that only report -/

section Reports

variable {t : Text} {n : Node} {c : Cursor} {v : Violation}

theorem Comparison.equality_eq_some (h : equality n = some v) :
    v.rule = .eqeqeq ∧ v.fix = none := by
  obtain ⟨operator, -, h⟩ := Option.bind_eq_some_iff.1 h
  obtain ⟨better, -, rfl⟩ := Option.map_eq_some_iff.1 h
  exact ⟨rfl, rfl⟩

theorem Comparison.toNaN_eq_some (h : toNaN t n = some v) :
    v.rule = .useIsnan ∧ v.fix = none := by
  obtain ⟨operator, -, h⟩ := Option.bind_eq_some_iff.1 h
  split at h
  · rw [← Option.some.inj h]
    exact ⟨rfl, rfl⟩
  · cases h

theorem Constructs.evalCall_eq_some (h : evalCall t n = some v) :
    v.rule = .noEval ∧ v.fix = none := by
  obtain ⟨callee, -, h⟩ := Option.bind_eq_some_iff.1 h
  split at h
  · rw [← Option.some.inj h]
    exact ⟨rfl, rfl⟩
  · cases h

theorem Constructs.functionKeyword_eq_some (h : functionKeyword c = some v) :
    v.rule = .noFuncKeyword ∧ v.fix = none := by
  unfold functionKeyword at h
  split at h
  · cases h
  · rw [← Option.some.inj h]
    exact ⟨rfl, rfl⟩

theorem Constructs.emptyBlock_eq_some (h : emptyBlock c = some v) :
    v.rule = .noEmpty ∧ v.fix = none := by
  obtain ⟨⟨what, span⟩, -, h⟩ := Option.bind_eq_some_iff.1 h
  simp only at h
  split at h
  · rw [← Option.some.inj h]
    exact ⟨rfl, rfl⟩
  · cases h

end Reports

/-! ## The whole script -/

namespace ScriptCheck

/-- Whether a script is indented as expected and free of redundant semicolons,
as far as there are rules about it. -/
def IsTidy (d : Document) (rules : RuleSet) (o : RuleOptions) (root : Node) : Prop :=
  (rules.contains .indent = true → ScriptIndentation.IsIndented d o root) ∧
    (rules.contains .semi = true → ∀ c ∈ Cursor.namedPlaces [] root,
      Semicolon.terminated.contains c.node.kind = true → Semicolon.IsTidy d c)

variable {d : Document} {rules : RuleSet} {o : RuleOptions}

theorem noRepairs_foundBy {rule : Rule} {found : Option Violation} :
    NoRepairs d (foundBy rules rule found) ↔
      (rules.contains rule = true → NoRepairs d found.toList) := by
  unfold foundBy
  split
  · rename_i h
    exact ⟨fun hfound _ => hfound, fun hfound => hfound h⟩
  · rename_i h
    exact ⟨fun _ h' => absurd h' h, fun _ => noRepairs_of_no_fix (by simp)⟩

/-- What a rule without fixes finds cannot be repaired. -/
theorem noRepairs_foundBy_of_no_fix {rule : Rule} {found : Option Violation}
    (h : ∀ v, found = some v → v.fix = none) : NoRepairs d (foundBy rules rule found) :=
  noRepairs_foundBy.2 fun _ => noRepairs_of_no_fix fun v hv => h v (Option.mem_toList.1 hv)

/-- The constructs that other rules look at are no statements that may end with
a semicolon. -/
theorem terminated_of_mem {kind : String} {kinds : List String}
    (hkinds : kinds.all (fun k => !Semicolon.terminated.contains k) = true)
    (h : kinds.contains kind = true) : Semicolon.terminated.contains kind = false := by
  have hkind := List.all_eq_true.1 hkinds kind (by simpa using h)
  simpa using hkind

/-- The rules have nothing to repair at a node unless it is a statement with a
redundant semicolon. -/
theorem noRepairs_violationsAt (c : Cursor) : NoRepairs d (violationsAt d.text rules c) ↔
    (rules.contains .semi = true → Semicolon.terminated.contains c.node.kind = true →
      Semicolon.IsTidy d c) := by
  have hother : ∀ (kinds : List String) {vs : List Violation},
      kinds.all (fun k => !Semicolon.terminated.contains k) = true →
      kinds.contains c.node.kind = true → NoRepairs d vs →
      (NoRepairs d vs ↔ (rules.contains .semi = true →
        Semicolon.terminated.contains c.node.kind = true → Semicolon.IsTidy d c)) := by
    intro kinds vs hkinds hkind hvs
    refine iff_of_true hvs fun _ hterminated => ?_
    rw [terminated_of_mem hkinds hkind] at hterminated
    cases hterminated
  unfold violationsAt
  simp only
  split
  · rename_i h
    refine hother ["binary_expression"] (by decide) (by simp [h])
      (noRepairs_append.2 ⟨?_, ?_⟩)
    · exact noRepairs_foundBy_of_no_fix fun v h => (Comparison.equality_eq_some h).2
    · exact noRepairs_foundBy_of_no_fix fun v h => (Comparison.toNaN_eq_some h).2
  split
  · rename_i h
    exact hother ["call_expression"] (by decide) (by simp [h])
      (noRepairs_foundBy_of_no_fix fun v h => (Constructs.evalCall_eq_some h).2)
  split
  · rename_i h
    exact hother _ (by decide) h
      (noRepairs_foundBy_of_no_fix fun v h => (Constructs.functionKeyword_eq_some h).2)
  split
  · rename_i h
    exact hother ["statement_block", "switch_body"] (by decide) (by simpa using h)
      (noRepairs_foundBy_of_no_fix fun v h => (Constructs.emptyBlock_eq_some h).2)
  split
  · rename_i h
    refine hother ["with_statement"] (by decide) (by simp [h])
      (noRepairs_foundBy_of_no_fix fun v hv => ?_)
    rw [← Option.some.inj hv]
    rfl
  split
  · rename_i h
    have hdebugger : NoRepairs d (if c.node.kind = "debugger_statement" then
        foundBy rules .noDebugger (some (Constructs.debugger c)) else []) := by
      split
      · refine noRepairs_foundBy_of_no_fix fun v hv => ?_
        rw [← Option.some.inj hv]
        rfl
      · exact noRepairs_of_no_fix (by simp)
    rw [statementViolations, noRepairs_append, noRepairs_foundBy, Semicolon.noRepairs_iff_isTidy]
    exact ⟨fun hvs hsemi _ => hvs.2 hsemi, fun htidy => ⟨hdebugger, fun hsemi => htidy hsemi h⟩⟩
  · rename_i h
    exact iff_of_true (noRepairs_of_no_fix (by simp)) fun _ hterminated => absurd hterminated h

/-- A script has nothing to repair when it is tidy. -/
theorem noRepairs_iff_isTidy {root : Node} {vs : List Violation}
    (h : (violations d rules o root).value = .ok vs) :
    NoRepairs d vs ↔ IsTidy d rules o root := by
  have hlines : NoRepairs d (if rules.contains .indent then
      ScriptIndentation.violations d o root else []) ↔
      (rules.contains .indent = true → ScriptIndentation.IsIndented d o root) := by
    split
    · rename_i hindent
      rw [ScriptIndentation.noRepairs_iff_isIndented]
      exact ⟨fun hd _ => hd, fun hd => hd hindent⟩
    · rename_i hindent
      exact iff_of_true (noRepairs_of_no_fix (by simp)) fun h' => absurd h' hindent
  have hvs : (if rules.contains .indent then ScriptIndentation.violations d o root else []) ++
      (Cursor.namedPlaces [] root).flatMap (violationsAt d.text rules) = vs := Except.ok.inj h
  rw [← hvs, noRepairs_append, hlines, noRepairs_flatMap]
  simp only [noRepairs_violationsAt]
  exact and_congr_right fun _ => ⟨fun hs hsemi c hc => hs c hc hsemi,
    fun hs c hc hsemi => hs hsemi c hc⟩

end ScriptCheck

end WebLint
