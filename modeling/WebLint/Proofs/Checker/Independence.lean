import Mathlib.Data.List.Basic
import WebLint.Proofs.Diagnostic
import WebLint.Proofs.Script.Repairs
import WebLint.Proofs.Sorting
import WebLint.Proofs.Style.Repairs
import WebLint.Proofs.Tree

/-!
# Rules do not interfere

The rules are looked at together, spot by spot and node by node, and what they find is
sorted by place.  Still each finds what it would find alone, in the same order, whichever
other rules are checked and whatever their levels and options are.

What is proved here:

* `StyleCheck.findsApart_violationsAt`, `ScriptCheck.findsApart_violationsAt` — at one spot
  or node each rule finds what it finds alone;
* `alone_of_analyze` — and so it does in a whole document;
* `analyze_congr` — alone, a rule goes by the options it reads;
* `filter_rule_checkText` — what is reported of a rule depends on its own level and options.
-/

namespace WebLint

/-- Whether two choices of options agree in those a rule reads. -/
def Rule.ReadsSame (R : Rule) (o o' : RuleOptions) : Prop :=
  match R with
  | .indentation => o.styleSpaces = o'.styleSpaces
  | .stringQuotes => o.quote = o'.quote
  | .indent => o.scriptSpaces = o'.scriptSpaces ∧ o.switchCase = o'.switchCase
  | _ => True

/-! ## Widths that are asked for -/

section

variable {R gated : Rule} {rules : RuleSet} {wide wide' : Bool}

/-- A rule that asks for no width that is too wide does not when it is alone. -/
theorem gate_alone (h : (rules.contains gated && wide) = false) (hR : rules.contains R = true) :
    (([R] : RuleSet).contains gated && wide) = false := by
  by_cases hgated : gated = R
  · subst hgated
    rw [hR, Bool.true_and] at h
    rw [h, Bool.and_false]
  · simp [hgated]

/-- What a rule asks for matters to itself alone. -/
theorem gate_congr (h : R = gated → wide = wide') :
    (([R] : RuleSet).contains gated && wide) = (([R] : RuleSet).contains gated && wide') := by
  by_cases hR : R = gated
  · rw [h hR]
  · simp [Ne.symm hR]

end

/-! ## Finding apart -/

/-- Whether each of some rules finds what it finds alone, and no other rule anything. -/
def FindsApart (finds : RuleSet → List Violation) : Prop :=
  ∀ rules R, (finds rules).filter (·.rule == R) = if rules.contains R then finds [R] else []

namespace FindsApart

variable {f g : RuleSet → List Violation}

theorem nil : FindsApart fun _ => [] := by
  intro rules R
  split
  · rfl
  · rfl

theorem append (hf : FindsApart f) (hg : FindsApart g) :
    FindsApart fun rules => f rules ++ g rules := by
  intro rules R
  rw [List.filter_append, hf rules R, hg rules R]
  split
  · rfl
  · rfl

theorem flatMap {α : Type} {as : List α} {f : RuleSet → α → List Violation}
    (h : ∀ a ∈ as, FindsApart fun rules => f rules a) :
    FindsApart fun rules => as.flatMap (f rules) := by
  intro rules R
  rw [List.filter_flatMap, List.flatMap_congr fun a ha => h a ha rules R]
  split
  · rfl
  · simp

theorem ite {p : Prop} [Decidable p] (hf : p → FindsApart f) (hg : ¬ p → FindsApart g) :
    FindsApart fun rules => if p then f rules else g rules := by
  by_cases h : p
  · simp only [if_pos h]
    exact hf h
  · simp only [if_neg h]
    exact hg h

/-- What is found when one rule is checked, and is all of this rule. -/
theorem enabled {rule : Rule} {found : List Violation} (h : ∀ v ∈ found, v.rule = rule) :
    FindsApart fun rules => if rules.contains rule then found else [] := by
  intro rules R
  change (if rules.contains rule then found else []).filter (·.rule == R) =
    if rules.contains R then (if ([R] : RuleSet).contains rule then found else []) else []
  by_cases hR : rule = R
  · subst hR
    have hself : ([rule] : RuleSet).contains rule = true := by simp
    have hown : found.filter (·.rule == rule) = found :=
      List.filter_eq_self.2 fun v hv => beq_iff_eq.2 (h v hv)
    rw [if_pos hself]
    split
    · exact hown
    · rfl
  · have hnone : found.filter (·.rule == R) = [] :=
      List.filter_eq_nil_iff.2 fun v hv hrule => hR ((h v hv).symm.trans (beq_iff_eq.1 hrule))
    have hother : ([R] : RuleSet).contains rule = false := by simpa using hR
    rw [hother]
    split
    · simp [hnone]
    · simp

end FindsApart

/-! ## Stylesheets -/

namespace StyleCheck

variable {t : Text} {d : Document} {o o' : RuleOptions} {R : Rule} {root : Node}

theorem findsApart_whenEnabled {rule : Rule} {found : List Violation}
    (h : ∀ v ∈ found, v.rule = rule) : FindsApart fun rules => whenEnabled rules rule found :=
  .enabled h

theorem findsApart_prefixViolations (n : Node) :
    FindsApart fun rules => prefixViolations t rules n := by
  unfold prefixViolations
  refine .append (.ite (fun _ => .append ?_ ?_) fun _ => .ite (fun _ => ?_) fun _ =>
    .ite (fun _ => ?_) fun _ => .nil) ?_
  · exact findsApart_whenEnabled fun v hv =>
      (VendorPrefix.ofProperty_eq_some (Option.mem_toList.1 hv)).1
  · refine findsApart_whenEnabled fun v hv => ?_
    obtain ⟨value, -, hvalue⟩ := List.mem_filterMap.1 hv
    exact (VendorPrefix.ofName_eq_some hvalue).1
  · refine findsApart_whenEnabled fun v hv => ?_
    obtain ⟨pseudo, -, hpseudo⟩ := List.mem_filterMap.1 hv
    exact (VendorPrefix.ofPseudo_eq_some hpseudo).1
  · refine findsApart_whenEnabled fun v hv => ?_
    obtain ⟨feature, -, hfeature⟩ := List.mem_filterMap.1 hv
    exact (VendorPrefix.ofName_eq_some hfeature).1
  · exact findsApart_whenEnabled fun v hv =>
      (VendorPrefix.ofAtKeyword_eq_some (Option.mem_toList.1 hv)).1

/-- At one spot each rule finds what it finds alone. -/
theorem findsApart_violationsAt (s : Spot) :
    FindsApart fun rules => violationsAt d rules o s := by
  have hindentation : ∀ depth n, FindsApart fun rules => whenEnabled rules .indentation
      (StyleIndentation.ofNode d o.styleSpaces depth n).toList := fun depth n =>
    findsApart_whenEnabled fun v hv =>
      (StyleIndentation.ofNode_eq_some (Option.mem_toList.1 hv)).1
  cases s with
  | brace depth n => exact hindentation depth n
  | statement depth n =>
    refine ((hindentation depth n).append (findsApart_prefixViolations n)).append ?_
    refine findsApart_whenEnabled fun v hv => ?_
    obtain ⟨l, -, hl⟩ := List.mem_filterMap.1 hv
    obtain ⟨quoted, -, rfl⟩ := Option.map_eq_some_iff.1 hl
    rfl

/-- Alone, a rule finds at a spot what the options it reads say. -/
theorem violationsAt_congr (h : R.ReadsSame o o') (s : Spot) :
    violationsAt d [R] o s = violationsAt d [R] o' s := by
  have hindentation : ∀ depth n, whenEnabled [R] .indentation
      (StyleIndentation.ofNode d o.styleSpaces depth n).toList =
        whenEnabled [R] .indentation (StyleIndentation.ofNode d o'.styleSpaces depth n).toList := by
    intro depth n
    by_cases hR : R = .indentation
    · subst hR
      rw [show o.styleSpaces = o'.styleSpaces from h]
    · simp [whenEnabled, Ne.symm hR]
  cases s with
  | brace depth n => exact hindentation depth n
  | statement depth n =>
    rw [violationsAt, violationsAt, hindentation]
    by_cases hR : R = .stringQuotes
    · subst hR
      rw [show o.quote = o'.quote from h]
    · simp [whenEnabled, Ne.symm hR]

/-- What a check finds: repeated declarations, and what is found at the spots. -/
theorem exists_findings {parser : Parser} {rules : RuleSet} {vs : List Violation}
    (h : (violations parser d rules o root).value = .ok vs) :
    ∃ findings, (Duplicates.detect parser (Sheet.ofTree d.text root)
        (rules.contains .noDuplicateDeclarations)).value = .ok findings ∧
      vs = findings.map Finding.toViolation ++
        (spots 0 root.children).flatMap (violationsAt d rules o) := by
  unfold violations at h
  rw [Logged.value_bind] at h
  split at h
  · cases h
  · rename_i findings hfindings
    exact ⟨findings, hfindings, (Except.ok.inj h).symm⟩

/-- Repeated declarations are of one rule. -/
theorem filter_findings {parser : Parser} {sheet : Sheet} {enabled : Bool}
    {findings : List Finding}
    (h : (Duplicates.detect parser sheet enabled).value = .ok findings) :
    (findings.map Finding.toViolation).filter (·.rule == R) =
      if R = .noDuplicateDeclarations then findings.map Finding.toViolation else [] := by
  have hrule : ∀ v ∈ findings.map Finding.toViolation, v.rule = .noDuplicateDeclarations := by
    intro v hv
    obtain ⟨f, hf, rfl⟩ := List.mem_map.1 hv
    unfold Duplicates.detect at h
    split at h
    · change Duplicates.Search.findings _ = _ at h
      unfold Duplicates.Search.findings at h
      split at h
      · cases h
      · rw [← Except.ok.inj h] at hf
        obtain ⟨found, -, rfl⟩ := List.mem_map.1 hf
        rfl
    · rw [← Except.ok.inj h] at hf
      cases hf
  split
  · rename_i hR
    exact List.filter_eq_self.2 fun v hv => by rw [hrule v hv, hR, beq_self_eq_true]
  · rename_i hR
    exact List.filter_eq_nil_iff.2 fun v hv h => hR ((beq_iff_eq.1 h).symm.trans (hrule v hv))

/-- Of what a check finds, what is about one rule is what the rule alone finds at the spots. -/
theorem filter_violations {parser : Parser} {rules : RuleSet} {vs : List Violation}
    {found : Spot → List Violation} (hR : R ≠ .noDuplicateDeclarations)
    (halone : ∀ s, violationsAt d [R] o s = found s)
    (h : (violations parser d rules o root).value = .ok vs) :
    vs.filter (·.rule == R) =
      whenEnabled rules R ((spots 0 root.children).flatMap found) := by
  obtain ⟨findings, hfindings, rfl⟩ := exists_findings h
  have hspot : ∀ s, (violationsAt d rules o s).filter (·.rule == R) =
      whenEnabled rules R (found s) := by
    intro s
    rw [whenEnabled, ← halone]
    exact findsApart_violationsAt s rules R
  rw [List.filter_append, filter_findings hfindings, if_neg hR, List.nil_append,
    List.filter_flatMap]
  simp only [hspot]
  unfold whenEnabled
  split
  · rfl
  · simp

/-- In a sheet each rule finds what it finds alone. -/
theorem alone_of_violations {parser : Parser} {rules : RuleSet} {vs : List Violation}
    (h : (violations parser d rules o root).value = .ok vs) :
    if rules.contains R then
      (violations parser d [R] o root).value = .ok (vs.filter (·.rule == R))
    else vs.filter (·.rule == R) = [] := by
  obtain ⟨findings, hfindings, rfl⟩ := exists_findings h
  have hspots : FindsApart fun rules =>
      (spots 0 root.children).flatMap (violationsAt d rules o) :=
    .flatMap fun s _ => findsApart_violationsAt s
  rw [List.filter_append, filter_findings hfindings, hspots rules R]
  split
  · rename_i hR
    by_cases hdup : R = .noDuplicateDeclarations
    · subst hdup
      rw [if_pos rfl, violations, Logged.value_bind]
      rw [hR] at hfindings
      rw [show ([Rule.noDuplicateDeclarations] : RuleSet).contains .noDuplicateDeclarations = true
        from rfl, hfindings]
      rfl
    · have hgate : ([R] : RuleSet).contains .noDuplicateDeclarations = false := by
        simpa using Ne.symm hdup
      rw [if_neg hdup, violations, Logged.value_bind, hgate]
      rfl
  · rename_i hR
    split
    · rename_i hdup
      rw [hdup, Bool.not_eq_true] at hR
      rw [hR] at hfindings
      rw [← Except.ok.inj hfindings]
      rfl
    · rfl

theorem violations_congr (parser : Parser) (h : R.ReadsSame o o') :
    violations parser d [R] o root = violations parser d [R] o' root := by
  unfold violations
  rw [show violationsAt d [R] o = violationsAt d [R] o' from funext (violationsAt_congr h)]

/-- In a sheet that is analyzed each rule finds what it finds alone. -/
theorem alone_of_analyze {parser : Parser} {rules : RuleSet} {vs : List Violation}
    (h : (analyze parser d rules o root).value = .ok vs) :
    if rules.contains R then
      (analyze parser d [R] o root).value = .ok (vs.filter (·.rule == R))
    else vs.filter (·.rule == R) = [] := by
  obtain ⟨hfits, hvs⟩ := analyze_eq_ok_iff.1 h
  have halone := alone_of_violations (R := R) hvs
  split
  · rename_i hR
    rw [if_pos hR] at halone
    exact analyze_eq_ok_iff.2 ⟨gate_alone hfits hR, halone⟩
  · rename_i hR
    rwa [if_neg hR] at halone

theorem overflows_congr (h : R.ReadsSame o o') :
    overflows d [R] o root = overflows d [R] o' root := by
  refine gate_congr fun hR => ?_
  subst hR
  have hspot : overflowsAt d o = overflowsAt d o' := by
    funext s
    rw [overflowsAt, overflowsAt, show o.styleSpaces = o'.styleSpaces from h]
  rw [hspot]

end StyleCheck

/-! ## Scripts -/

namespace ScriptIndentation

variable {d : Document} {o o' : RuleOptions} {root : Node} {lines : List Text} {row : Nat}
  {expected : Expected} {places : List (Nat × Text)}

theorem rule_of_mem_checkLines {v : Violation}
    (h : v ∈ checkLines d o root lines row expected places) : v.rule = .indent := by
  induction places generalizing row expected with
  | nil => cases h
  | cons place places ih =>
    rw [checkLines] at h
    cases hline : checkLine d o root lines expected place.1 place.2 with
    | none =>
      rw [hline] at h
      exact ih h
    | some checked =>
      obtain ⟨width, found⟩ := checked
      obtain ⟨-, token, hfound⟩ := checkLine_eq_some hline
      rw [hline] at h
      rcases List.mem_append.1 h with h | h
      · rw [Option.mem_toList, hfound] at h
        split at h
        · cases h
        · rw [← Option.some.inj h]
          rfl
      · exact ih h

/-- What is expected of a line depends on two options. -/
theorem expectedAt_congr (hspaces : o.scriptSpaces = o'.scriptSpaces)
    (hswitch : o.switchCase = o'.switchCase) (token : Cursor) :
    expectedAt d o lines expected token = expectedAt d o' lines expected token := by
  unfold expectedAt expectedIn
  simp only [hspaces, hswitch]

theorem checkLines_congr (hspaces : o.scriptSpaces = o'.scriptSpaces)
    (hswitch : o.switchCase = o'.switchCase) :
    checkLines d o root lines row expected places =
      checkLines d o' root lines row expected places := by
  induction places generalizing row expected with
  | nil => rfl
  | cons place places ih =>
    have hline : checkLine d o root lines expected place.1 place.2 =
        checkLine d o' root lines expected place.1 place.2 := by
      unfold checkLine
      simp only [expectedAt_congr hspaces hswitch]
    rw [checkLines, checkLines, hline]
    simp only [ih]

/-- So are the expected indentations of all lines. -/
theorem expectedWidths_congr (hspaces : o.scriptSpaces = o'.scriptSpaces)
    (hswitch : o.switchCase = o'.switchCase) :
    expectedWidths d o root = expectedWidths d o' root := by
  have hwidths : ∀ placed row expected, widths d o root d.text.lines row expected placed =
      widths d o' root d.text.lines row expected placed := by
    intro placed
    induction placed with
    | nil => exact fun _ _ => rfl
    | cons place placed ih =>
      intro row expected
      have hline : lineWidth d o root d.text.lines expected place.1 place.2 =
          lineWidth d o' root d.text.lines expected place.1 place.2 := by
        rw [lineWidth, lineWidth, funext (expectedAt_congr hspaces hswitch)]
      rw [widths, widths, hline]
      simp only [ih]
  exact hwidths _ _ _

end ScriptIndentation

namespace ScriptCheck

variable {t : Text} {d : Document} {o o' : RuleOptions} {R : Rule} {root : Node}

theorem findsApart_foundBy {rule : Rule} {found : Option Violation}
    (h : ∀ v, found = some v → v.rule = rule) : FindsApart fun rules => foundBy rules rule found :=
  .enabled fun v hv => h v (Option.mem_toList.1 hv)

/-- At one node each rule finds what it finds alone. -/
theorem findsApart_violationsAt (c : Cursor) : FindsApart fun rules => violationsAt t rules c := by
  unfold violationsAt statementViolations
  refine .ite (fun _ => .append ?_ ?_) fun _ => .ite (fun _ => ?_) fun _ =>
    .ite (fun _ => ?_) fun _ => .ite (fun _ => ?_) fun _ => .ite (fun _ => ?_) fun _ =>
      .ite (fun _ => .append (.ite (fun _ => ?_) fun _ => .nil) ?_) fun _ => .nil
  · exact findsApart_foundBy fun v h => (Comparison.equality_eq_some h).1
  · exact findsApart_foundBy fun v h => (Comparison.toNaN_eq_some h).1
  · exact findsApart_foundBy fun v h => (Constructs.evalCall_eq_some h).1
  · exact findsApart_foundBy fun v h => (Constructs.functionKeyword_eq_some h).1
  · exact findsApart_foundBy fun v h => (Constructs.emptyBlock_eq_some h).1
  · refine findsApart_foundBy fun v h => ?_
    rw [← Option.some.inj h]
    rfl
  · refine findsApart_foundBy fun v h => ?_
    rw [← Option.some.inj h]
    rfl
  · exact findsApart_foundBy fun v h => (Semicolon.ofStatement_eq_some h).1

/-- In a script each rule finds what it finds alone. -/
theorem alone_of_violations {rules : RuleSet} {vs : List Violation}
    (h : (violations d rules o root).value = .ok vs) :
    if rules.contains R then (violations d [R] o root).value = .ok (vs.filter (·.rule == R))
    else vs.filter (·.rule == R) = [] := by
  have hlines : FindsApart fun rules =>
      if rules.contains .indent then ScriptIndentation.violations d o root else [] :=
    .enabled fun v hv => ScriptIndentation.rule_of_mem_checkLines hv
  have hnodes : FindsApart fun rules =>
      (Cursor.namedPlaces [] root).flatMap (violationsAt d.text rules) :=
    .flatMap fun c _ => findsApart_violationsAt c
  rw [← Except.ok.inj h, hlines.append hnodes rules R]
  split
  · rfl
  · rfl

theorem violations_congr (h : R.ReadsSame o o') :
    violations d [R] o root = violations d [R] o' root := by
  unfold violations
  by_cases hR : R = .indent
  · subst hR
    rw [show ScriptIndentation.violations d o root = ScriptIndentation.violations d o' root from
      ScriptIndentation.checkLines_congr h.1 h.2]
  · have hgate : ([R] : RuleSet).contains .indent = false := by simpa using Ne.symm hR
    rw [hgate]
    rfl

/-- In a script that is analyzed each rule finds what it finds alone. -/
theorem alone_of_analyze {rules : RuleSet} {vs : List Violation}
    (h : (analyze d rules o root).value = .ok vs) :
    if rules.contains R then (analyze d [R] o root).value = .ok (vs.filter (·.rule == R))
    else vs.filter (·.rule == R) = [] := by
  obtain ⟨hfits, hvs⟩ := analyze_eq_ok_iff.1 h
  have halone := alone_of_violations (R := R) hvs
  split
  · rename_i hR
    rw [if_pos hR] at halone
    exact analyze_eq_ok_iff.2 ⟨gate_alone hfits hR, halone⟩
  · rename_i hR
    rwa [if_neg hR] at halone

theorem overflows_congr (h : R.ReadsSame o o') :
    overflows d [R] o root = overflows d [R] o' root := by
  refine gate_congr fun hR => ?_
  subst hR
  rw [ScriptIndentation.overflows, ScriptIndentation.overflows,
    ScriptIndentation.expectedWidths_congr h.1 h.2]

end ScriptCheck

/-! ## Checkers -/

namespace Checker

variable {c : Checker} {parser : Parser} {d : Document} {rules : RuleSet} {o o' : RuleOptions}
  {R : Rule} {root : Node} {p q : Preset}

/-- In a document each rule finds what it finds alone. -/
theorem alone_of_analyze (hc : c ∈ builtin) {vs : List Violation}
    (h : (c.analyze parser d rules o root).value = .ok vs) :
    if rules.contains R then
      (c.analyze parser d [R] o root).value = .ok (vs.filter (·.rule == R))
    else vs.filter (·.rule == R) = [] := by
  rcases mem_builtin.1 hc with rfl | rfl
  · exact StyleCheck.alone_of_analyze h
  · exact ScriptCheck.alone_of_analyze h

/-- Alone, a rule goes by the options it reads. -/
theorem analyze_congr (hc : c ∈ builtin) (h : R.ReadsSame o o') :
    c.analyze parser d [R] o root = c.analyze parser d [R] o' root := by
  rcases mem_builtin.1 hc with rfl | rfl
  · show StyleCheck.analyze parser d [R] o root = StyleCheck.analyze parser d [R] o' root
    rw [StyleCheck.analyze, StyleCheck.analyze, StyleCheck.overflows_congr h,
      StyleCheck.violations_congr parser h]
  · show ScriptCheck.analyze d [R] o root = ScriptCheck.analyze d [R] o' root
    rw [ScriptCheck.analyze, ScriptCheck.analyze, ScriptCheck.overflows_congr h,
      ScriptCheck.violations_congr h]

/-- What is reported of a rule is made of the violations of this rule. -/
theorem filter_sort_complete (p : Preset) (R : Rule) (vs : List Violation) :
    (Diagnostic.sort (vs.map (complete d p))).filter (·.rule == R) =
      Diagnostic.sort ((vs.filter (·.rule == R)).map (complete d p)) := by
  rw [Diagnostic.sort, ← @Sorting.mergeSort_filter _ Diagnostic.le
    (fun _ _ _ => Diagnostic.le_trans) Diagnostic.le_total, List.filter_map]
  rfl

/-- The violations of a rule are reported at its level. -/
theorem map_complete_congr (h : p.level R = q.level R) (vs : List Violation) :
    (vs.filter (·.rule == R)).map (complete d p) =
      (vs.filter (·.rule == R)).map (complete d q) := by
  refine List.map_congr_left fun v hv => ?_
  have hrule : v.rule = R := beq_iff_eq.1 (List.mem_filter.1 hv).2
  rw [complete, complete, hrule, h]

/-- The rules a checker looks for are those of its language that are not off. -/
theorem contains_rules_ofPaths (p : Preset) (fix : Bool) (paths : List Path) (l : Language) :
    ((Plan.ofPaths p fix paths).rules.forLanguage l).contains R =
      (p.level R != .off && R.language == l) := by
  rw [Bool.eq_iff_iff, List.contains_iff_mem, RuleSet.forLanguage, List.mem_filter, Plan.ofPaths,
    Preset.enabledRules, List.mem_filter, Bool.and_eq_true]
  exact and_congr_left' ⟨And.right, fun h => ⟨Rule.mem_all R, h⟩⟩

/-- **Rules do not interfere.**  Whatever else two presets say, if they give a rule the same
level and the same values of the options it reads, and a text can be checked with both, the
same is reported of the rule: nothing when it is off, and otherwise the same diagnostics in
the same order. -/
theorem filter_rule_checkText {fix fix' : Bool} {paths paths' : List Path} {file : Path}
    {text : Text} {found found' : List Diagnostic} (hc : c ∈ builtin)
    (hlevel : p.level R = q.level R) (hoptions : R.ReadsSame p.options q.options)
    (hp : (c.checkText parser (.ofPaths p fix paths) file text).value = .ok found)
    (hq : (c.checkText parser (.ofPaths q fix' paths') file text).value = .ok found') :
    found.filter (·.rule == R) = found'.filter (·.rule == R) ∧
      (p.level R = .off → found.filter (·.rule == R) = []) := by
  rcases checkText_eq_ok hp with ⟨hempty, rfl⟩ | ⟨root, vs, hempty, hparse, hvs, rfl⟩
  · rcases checkText_eq_ok hq with ⟨-, rfl⟩ | ⟨root, vs, hempty', -⟩
    · exact ⟨rfl, fun _ => rfl⟩
    · rw [hempty] at hempty'
      cases hempty'
  · rcases checkText_eq_ok hq with ⟨hempty', -⟩ | ⟨root', vs', -, hparse', hvs', rfl⟩
    · rw [hempty] at hempty'
      cases hempty'
    obtain rfl := Except.ok.inj (hparse.symm.trans hparse')
    have halone := alone_of_analyze (R := R) hc hvs
    have halone' := alone_of_analyze (R := R) hc hvs'
    rw [contains_rules_ofPaths] at halone halone'
    rw [filter_sort_complete, filter_sort_complete]
    cases hrun : (p.level R != .off && R.language == c.language) with
    | true =>
      rw [if_pos hrun] at halone
      rw [← hlevel, if_pos hrun] at halone'
      have hsame : (c.analyze parser (c.document parser file text) [R] p.options root).value =
          (c.analyze parser (c.document parser file text) [R] q.options root).value := by
        rw [analyze_congr hc hoptions]
      rw [Except.ok.inj (halone.symm.trans (hsame.trans halone'))]
      refine ⟨congrArg Diagnostic.sort (map_complete_congr hlevel vs'), fun hoff => ?_⟩
      rw [hoff] at hrun
      cases hrun
    | false =>
      rw [hrun] at halone
      rw [← hlevel, hrun] at halone'
      rw [show vs.filter _ = [] from halone, show vs'.filter _ = [] from halone']
      exact ⟨rfl, fun _ => Diagnostic.sort_nil⟩

/-- A statement that two rules are about. -/
def breakpoint : Node :=
  .construct "program" 0 9
    [.construct "debugger_statement" 0 9 [.token "debugger" 0, .token ";" 8]]

/-- The parser that knows this statement. -/
def breakpointTrees : ParseTable := [⟨.javascript, "debugger;".toList, none, ⟨false, breakpoint⟩⟩]

/-- The preset that asks for one of the two rules. -/
def breakpointPreset : Preset := Preset.setLevel {} .noDebugger .warn

/-- The statement is reported in the same way when its semicolon is reported as well. -/
theorem filter_rule_breakpoint :
    script ∈ builtin ∧
      (breakpointPreset.setLevel .semi .error).level .noDebugger =
        breakpointPreset.level .noDebugger ∧
      Rule.noDebugger.ReadsSame (breakpointPreset.setLevel .semi .error).options
        breakpointPreset.options ∧
      ∃ found found' : List Diagnostic,
        (script.checkText breakpointTrees.parser
          (.ofPaths (breakpointPreset.setLevel .semi .error) true []) ⟨"a.js"⟩
          "debugger;".toList).value = .ok found ∧
        (script.checkText breakpointTrees.parser (.ofPaths breakpointPreset false []) ⟨"a.js"⟩
          "debugger;".toList).value = .ok found' ∧
        found.length = 2 ∧ found'.map (·.span) = [⟨0, 9⟩] ∧
        found.filter (·.rule == .noDebugger) = found'.filter (·.rule == .noDebugger) := by
  have hspans : ((script.analysis breakpointTrees.parser
      (.ofPaths (breakpointPreset.setLevel .semi .error) true [])
      (script.document breakpointTrees.parser ⟨"a.js"⟩ "debugger;".toList)
      breakpoint).toOption.map fun vs => vs.map (·.span)) = some [⟨0, 9⟩, ⟨8, 9⟩] := by
    decide +kernel
  have hspans' : ((script.analysis breakpointTrees.parser (.ofPaths breakpointPreset false [])
      (script.document breakpointTrees.parser ⟨"a.js"⟩ "debugger;".toList)
      breakpoint).toOption.map fun vs => vs.map (·.span)) = some [⟨0, 9⟩] := by
    decide +kernel
  obtain ⟨vs, hvs, hvs_spans⟩ := Option.map_eq_some_iff.1 hspans
  obtain ⟨vs', hvs', hvs'_spans⟩ := Option.map_eq_some_iff.1 hspans'
  have hfound := checkText_of_analysis rfl rfl (eq_ok_of_toOption hvs)
  have hfound' := checkText_of_analysis rfl rfl (eq_ok_of_toOption hvs')
  have hlevel : (breakpointPreset.setLevel .semi .error).level .noDebugger =
      breakpointPreset.level .noDebugger := rfl
  have hsame := filter_rule_checkText (R := .noDebugger) (mem_builtin.2 (Or.inr rfl)) hlevel trivial
    hfound hfound'
  refine ⟨mem_builtin.2 (Or.inr rfl), hlevel, trivial, _, _, hfound, hfound', ?_, ?_, hsame.1⟩
  · rw [Diagnostic.sort, List.length_mergeSort, List.length_map]
    simpa using congrArg List.length hvs_spans
  · obtain ⟨v, rfl, hv⟩ := List.map_eq_singleton_iff.1 hvs'_spans
    rw [List.map_singleton, Diagnostic.sort_singleton, List.map_singleton]
    exact congrArg (fun s => [s]) hv

end Checker
end WebLint
