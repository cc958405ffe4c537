import WebLint.Checker

/-!
# What a checker does with one text

A checker finds something in a text only when the text is a document of its
language, with its regions in order, and what it finds is what the analysis
reports on the tree of this document.

What is proved here:

* `StyleCheck.analyze_eq_ok_iff`, `ScriptCheck.analyze_eq_ok_iff` — the analyses succeed
  when the rules do, unless a width outgrows a machine word;
* `checkText_eq_ok`, `checkText_of_analysis` — the ways a text is checked
  successfully;
* `inOrder_of_checkText` — the regions of a text that is checked are in order;
* `contains_of_mem_fixesOf` — the fixes of what is found lie in the document;
* `no_fixes_iff` — nothing found has a fix when no violation can be repaired.
-/

namespace WebLint

/-! ## Analyses -/

section

variable {parser : Parser} {d : Document} {rules : RuleSet} {o : RuleOptions} {root : Node}
  {vs : List Violation}

/-- The analysis of a stylesheet comes to an end at a width when the rules succeed, and fails
as they do otherwise. -/
theorem StyleCheck.value_analyze : (analyze parser d rules o root).value =
    if overflows d rules o root then
      (violations parser d rules o root).value.bind fun _ => .error (.overflow d.file)
    else (violations parser d rules o root).value := by
  unfold analyze violations
  split
  · rw [Logged.value_bind, Logged.value_bind]
    split
    · rfl
    · rfl
  · rfl

/-- It logs what the rules log. -/
theorem StyleCheck.events_analyze :
    (analyze parser d rules o root).events = (violations parser d rules o root).events := by
  unfold analyze violations
  split
  · rw [Logged.events_bind, Logged.events_bind]
    split
    · rfl
    · rfl
  · rfl

/-- A stylesheet is analyzed successfully when the rules succeed and ask for no width that
outgrows a machine word. -/
theorem StyleCheck.analyze_eq_ok_iff : (analyze parser d rules o root).value = .ok vs ↔
    overflows d rules o root = false ∧ (violations parser d rules o root).value = .ok vs := by
  rw [value_analyze]
  cases overflows d rules o root with
  | true => cases (violations parser d rules o root).value <;> simp [Except.bind]
  | false => simp

/-- A script is analyzed successfully when the rules succeed and ask for no width that outgrows
a machine word. -/
theorem ScriptCheck.analyze_eq_ok_iff : (analyze d rules o root).value = .ok vs ↔
    overflows d rules o root = false ∧ (violations d rules o root).value = .ok vs := by
  unfold analyze
  cases overflows d rules o root with
  | true => simp
  | false => simp

end

namespace Checker

variable {c : Checker} {parser : Parser} {plan : Plan} {file : Path} {text : Text}

theorem mem_builtin : c ∈ builtin ↔ c = style ∨ c = script := by
  simp [builtin]

/-- The document a checker reads of a text. -/
abbrev document (c : Checker) (parser : Parser) (file : Path) (text : Text) : Document :=
  Document.ofFile parser file text c.language

/-- What the analysis of a checker yields on a document with a tree. -/
abbrev analysis (c : Checker) (parser : Parser) (plan : Plan) (d : Document) (root : Node) :
    Except Failure (List Violation) :=
  (c.analyze parser d (plan.rules.forLanguage c.language) plan.preset.options root).value

/-- A text is checked successfully when there is nothing to check, or when its
document has a tree and the analysis of the tree succeeds. -/
theorem checkText_eq_ok {found : List Diagnostic}
    (h : (c.checkText parser plan file text).value = .ok found) :
    ((c.document parser file text).isEmpty = true ∧ found = []) ∨
      ∃ root vs, (c.document parser file text).isEmpty = false ∧
        (c.document parser file text).parse parser = .ok root ∧
        c.analysis parser plan (c.document parser file text) root = .ok vs ∧
        found = Diagnostic.sort (vs.map (complete (c.document parser file text) plan.preset)) := by
  unfold checkText at h
  by_cases hempty : (c.document parser file text).isEmpty = true
  · rw [if_pos hempty] at h
    exact Or.inl ⟨hempty, (Except.ok.inj h).symm⟩
  · rw [if_neg hempty] at h
    cases hparse : (c.document parser file text).parse parser with
    | error e =>
      rw [hparse] at h
      cases h
    | ok root =>
      rw [hparse] at h
      cases hvs : c.analysis parser plan (c.document parser file text) root with
      | error e =>
        simp only [Logged.value_bind, Logged.value_pure, hvs] at h
        cases h
      | ok vs =>
        simp only [Logged.value_bind, Logged.value_pure, hvs] at h
        exact Or.inr ⟨root, vs, by simpa using hempty, rfl, hvs, (Except.ok.inj h).symm⟩

theorem eq_ok_of_toOption {ε α : Type} {x : Except ε α} {a : α} (h : x.toOption = some a) :
    x = .ok a := by
  cases x with
  | error e => cases h
  | ok b => exact congrArg Except.ok (Option.some.inj h)

/-- Where there is nothing to check, nothing is found. -/
theorem checkText_of_isEmpty (hempty : (c.document parser file text).isEmpty = true) :
    (c.checkText parser plan file text).value = .ok [] := by
  unfold checkText
  rw [if_pos hempty]
  rfl

/-- What the analysis reports on the tree of a text is what is found in it. -/
theorem checkText_of_analysis {root : Node} {vs : List Violation}
    (hempty : (c.document parser file text).isEmpty = false)
    (hparse : (c.document parser file text).parse parser = .ok root)
    (hvs : c.analysis parser plan (c.document parser file text) root = .ok vs) :
    (c.checkText parser plan file text).value =
      .ok (Diagnostic.sort (vs.map (complete (c.document parser file text) plan.preset))) := by
  unfold checkText
  rw [if_neg (by simp [hempty]), hparse]
  simp only [Logged.value_bind, Logged.value_pure, hvs]
  rfl

/-- Where the analysis fails, the check does. -/
theorem checkText_of_error {root : Node} {e : Failure}
    (hempty : (c.document parser file text).isEmpty = false)
    (hparse : (c.document parser file text).parse parser = .ok root)
    (he : c.analysis parser plan (c.document parser file text) root = .error e) :
    (c.checkText parser plan file text).value = .error e := by
  unfold checkText
  rw [if_neg (by simp [hempty]), hparse]
  simp only [Logged.value_bind, Logged.value_pure, he]
  rfl

/-- The regions of a document that has a tree are in order. -/
theorem inOrder_of_parse {d : Document} {root : Node} (h : d.parse parser = .ok root) :
    Region.inOrder 0 (d.ranges.getD []) = true := by
  unfold Document.parse at h
  split at h
  · assumption
  · cases h

/-- The regions of a text that is checked are in order. -/
theorem inOrder_of_checkText {found : List Diagnostic} {regions : List Region}
    (hregions : (c.document parser file text).regions = some regions)
    (h : (c.checkText parser plan file text).value = .ok found) :
    Region.inOrder 0 (regions.map (·.span)) = true := by
  cases regions with
  | nil => rfl
  | cons r rs =>
    rcases checkText_eq_ok h with ⟨hempty, -⟩ | ⟨root, vs, -, hparse, -, -⟩
    · rw [Document.isEmpty, hregions] at hempty
      cases hempty
    · have horder := inOrder_of_parse hparse
      rw [Document.ranges, hregions] at horder
      exact horder

/-- A fix that is kept lies in the document. -/
theorem contains_of_keepFix {d : Document} {v : Violation} {f : Fix} (h : keepFix d v = some f) :
    d.contains f.start f.stop = true := by
  unfold keepFix at h
  split at h
  · exact (Option.filter_eq_some_iff.1 h).2
  · cases h

/-- The fixes of what is found in a text lie in its document. -/
theorem contains_of_mem_fixesOf {found : List Diagnostic} {f : Fix}
    (h : (c.checkText parser plan file text).value = .ok found) (hf : f ∈ Fixing.fixesOf found) :
    (c.document parser file text).contains f.start f.stop = true := by
  obtain ⟨diagnostic, hmem, hfix⟩ := List.mem_filterMap.1 hf
  rcases checkText_eq_ok h with ⟨-, rfl⟩ | ⟨root, vs, -, -, -, rfl⟩
  · cases hmem
  · obtain ⟨v, -, rfl⟩ := List.mem_map.1 (List.mem_mergeSort.1 hmem)
    exact contains_of_keepFix hfix

/-! ## The fixes of what is found -/

/-- A diagnostic has the fix of its violation, if any. -/
theorem fix_of_complete {d : Document} {preset : Preset} {v : Violation} {f : Fix}
    (hf : f ∈ (complete d preset v).fix) : v.fix = some f := by
  unfold complete keepFix at hf
  simp only at hf
  split at hf
  · exact (Option.filter_eq_some_iff.1 hf).1
  · cases hf

/-- What holds between the fixes of violations, in whatever order, holds between
the fixes of the diagnostics made of them. -/
theorem pairwise_fixes {d : Document} {preset : Preset} {vs : List Violation}
    {R : Rule → Fix → Rule → Fix → Prop} (hsymm : ∀ {p f q g}, R p f q g → R q g p f)
    (h : vs.Pairwise fun v w => ∀ f ∈ v.fix, ∀ g ∈ w.fix, R v.rule f w.rule g) :
    (Diagnostic.sort (vs.map (complete d preset))).Pairwise fun a b =>
      ∀ f ∈ a.fix, ∀ g ∈ b.fix, R a.rule f b.rule g := by
  have hmap : (vs.map (complete d preset)).Pairwise fun a b =>
      ∀ f ∈ a.fix, ∀ g ∈ b.fix, R a.rule f b.rule g :=
    List.pairwise_map.2 (h.imp fun hvw f hf g hg =>
      hvw f (fix_of_complete hf) g (fix_of_complete hg))
  exact hmap.perm (List.mergeSort_perm _ _).symm fun hab f hf g hg => hsymm (hab g hg f hf)

/-- A symmetric relation between the fixes of violations, in order, holds between the
fixes of the diagnostics made of them. -/
theorem pairwise_fixesOf {d : Document} {preset : Preset} {vs : List Violation}
    {R : Fix → Fix → Prop} (hsymm : ∀ {f g}, R f g → R g f)
    (h : (vs.filterMap (·.fix)).Pairwise R) :
    (Fixing.fixesOf (Diagnostic.sort (vs.map (complete d preset)))).Pairwise R :=
  List.pairwise_filterMap.2
    (pairwise_fixes (R := fun _ f _ g => R f g) hsymm (List.pairwise_filterMap.1 h))

/-- A diagnostic is made of a violation of the same rule, and its fix, if it has one, is
that of the violation. -/
theorem exists_violation_of_mem {d : Document} {preset : Preset} {vs : List Violation}
    {x : Diagnostic} (hx : x ∈ Diagnostic.sort (vs.map (complete d preset))) :
    ∃ v ∈ vs, x.rule = v.rule ∧ ∀ f ∈ x.fix, v.fix = some f := by
  obtain ⟨v, hv, rfl⟩ := List.mem_map.1 (List.mem_mergeSort.1 hx)
  exact ⟨v, hv, rfl, fun f hf => fix_of_complete hf⟩

/-! ## Violations that can be repaired -/

/-- Whether none of some violations can be repaired in a document. -/
def NoRepairs (d : Document) (vs : List Violation) : Prop := ∀ v ∈ vs, keepFix d v = none

section NoRepairs

variable {d : Document}

theorem noRepairs_append {vs ws : List Violation} :
    NoRepairs d (vs ++ ws) ↔ NoRepairs d vs ∧ NoRepairs d ws :=
  List.forall_mem_append

theorem noRepairs_flatMap {α : Type} {as : List α} {f : α → List Violation} :
    NoRepairs d (as.flatMap f) ↔ ∀ a ∈ as, NoRepairs d (f a) := by
  constructor
  · intro h a ha v hv
    exact h v (List.mem_flatMap.2 ⟨a, ha, hv⟩)
  · intro h v hv
    obtain ⟨a, ha, hv⟩ := List.mem_flatMap.1 hv
    exact h a ha v hv

theorem noRepairs_toList {found : Option Violation} :
    NoRepairs d found.toList ↔ ∀ v, found = some v → keepFix d v = none := by
  simp [NoRepairs]

theorem noRepairs_filterMap {α : Type} {as : List α} {f : α → Option Violation} :
    NoRepairs d (as.filterMap f) ↔ ∀ a ∈ as, NoRepairs d (f a).toList := by
  constructor
  · intro h a ha v hv
    exact h v (List.mem_filterMap.2 ⟨a, ha, Option.mem_toList.1 hv⟩)
  · intro h v hv
    obtain ⟨a, ha, hv⟩ := List.mem_filterMap.1 hv
    exact h a ha v (Option.mem_toList.2 hv)

/-- What has no fix cannot be repaired. -/
theorem noRepairs_of_no_fix {vs : List Violation} (h : ∀ v ∈ vs, v.fix = none) :
    NoRepairs d vs := by
  intro v hv
  rw [keepFix, h v hv]
  split
  · rfl
  · rfl

/-- What has a fix that is safe can be repaired, unless the fix leaves the
document. -/
theorem keepFix_eq_none_iff {v : Violation} {f : Fix} (hsafe : v.rule.hasSafeFix = true)
    (hfix : v.fix = some f) : keepFix d v = none ↔ d.contains f.start f.stop = false := by
  rw [keepFix, if_pos hsafe, hfix, Option.filter_eq_none_iff]
  simp

end NoRepairs

/-- Nothing found has a fix when no violation can be repaired. -/
theorem no_fixes_iff {d : Document} {preset : Preset} {vs : List Violation} :
    (∀ x ∈ Diagnostic.sort (vs.map (complete d preset)), x.fix = none) ↔ NoRepairs d vs := by
  constructor
  · intro h v hv
    exact h _ (List.mem_mergeSort.2 (List.mem_map_of_mem hv))
  · intro h x hx
    obtain ⟨v, hv, rfl⟩ := List.mem_map.1 (List.mem_mergeSort.1 hx)
    exact h v hv

end Checker
end WebLint
