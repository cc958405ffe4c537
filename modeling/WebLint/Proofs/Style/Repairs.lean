import WebLint.Proofs.Checker

/-!
# What is repaired in stylesheets

Two rules about stylesheets have fixes: the one about indentation and the one
about quotes.  This file says, without mentioning violations, when neither of
them has anything left to repair in a sheet.

What is proved here:

* `StyleIndentation.ofNode_eq_none_iff` — the rule about indentation leaves
  alone what is indented as expected;
* `VendorPrefix.of_mem_prefixViolations` — the rules about vendor prefixes
  repair nothing;
* `StyleCheck.noRepairs_iff_isTidy` — a sheet has nothing to repair when it is
  tidy.
-/

namespace WebLint

open Checker (NoRepairs noRepairs_append noRepairs_flatMap noRepairs_filterMap noRepairs_toList
  noRepairs_of_no_fix keepFix_eq_none_iff)

/-! ## Indentation -/

namespace StyleIndentation

/-- Whether a node nested in `depth` blocks, if it starts a line of a region,
is indented by as many spaces as expected. -/
def Fits (d : Document) (spaces depth : Nat) (n : Node) : Prop :=
  let indent := lead d n
  indent.all Indent.isBlank = true → d.contains (n.start - indent.byteLength) n.start = true →
    indent = Indent.spaces (expected d spaces depth n)

variable {d : Document} {spaces depth : Nat} {n : Node}

theorem isChecked_iff : isChecked d n = true ↔ (lead d n).all Indent.isBlank = true ∧
    d.contains (n.start - (lead d n).byteLength) n.start = true :=
  Bool.and_eq_true_iff

/-- The rule leaves alone what is indented as expected. -/
theorem ofNode_eq_none_iff : ofNode d spaces depth n = none ↔ Fits d spaces depth n := by
  unfold ofNode Fits isChecked
  by_cases hblank : (lead d n).all Indent.isBlank = true
  · by_cases hin : d.contains (n.start - (lead d n).byteLength) n.start = true
    · simp only [hblank, hin, Bool.and_self, Bool.not_true, Bool.false_eq_true, if_false,
        forall_const]
      rw [← Indent.isFitting_iff hblank]
      split
      · simp [*]
      · simp [*]
    · simp [hblank, hin]
  · simp [hblank]

/-- What is found at a node, and its repair. -/
theorem ofNode_eq_some {v : Violation} (h : ofNode d spaces depth n = some v) :
    v.rule = .indentation ∧ ∃ f, v.fix = some f ∧ d.contains f.start f.stop = true ∧
      f.content = Indent.spaces (expected d spaces depth n) := by
  unfold ofNode at h
  simp only at h
  split at h
  · cases h
  rename_i hchecked
  have hin := (isChecked_iff.1 (by simpa using hchecked)).2
  split at h
  · cases h
  rw [← Option.some.inj h]
  exact ⟨rfl, _, rfl, by simpa [Fix.replace] using hin, rfl⟩

/-- What the rule finds can be repaired. -/
theorem keepFix_of_ofNode {v : Violation} (h : ofNode d spaces depth n = some v) :
    Checker.keepFix d v ≠ none := by
  obtain ⟨hrule, f, hfix, hin, -⟩ := ofNode_eq_some h
  rw [ne_eq, keepFix_eq_none_iff (by rw [hrule]; rfl) hfix, hin]
  exact Bool.noConfusion

/-- The rule has nothing to repair when the node is indented as expected. -/
theorem noRepairs_iff_fits :
    NoRepairs d (ofNode d spaces depth n).toList ↔ Fits d spaces depth n := by
  rw [noRepairs_toList, ← ofNode_eq_none_iff]
  constructor
  · intro h
    cases hv : ofNode d spaces depth n with
    | none => rfl
    | some v => exact absurd (h v hv) (keepFix_of_ofNode hv)
  · intro h v hv
    rw [h] at hv
    cases hv

end StyleIndentation

/-! ## Quotes -/

namespace Quotes

/-- The rule has nothing to repair at a string that has the expected delimiters
or holds them, or that does not lie in the document. -/
theorem noRepairs_iff {d : Document} {quote : Quote} {literal : Node} :
    NoRepairs d (ofString d.text quote literal).toList ↔
      (d.contains literal.start literal.stop = true →
        requote? quote (literal.text d.text) = none) := by
  rw [noRepairs_toList, ofString]
  cases hquoted : requote? quote (literal.text d.text) with
  | none => simp
  | some quoted =>
    simp only [Option.map_some, Option.some.injEq, forall_eq']
    rw [keepFix_eq_none_iff rfl rfl]
    simp [Fix.replace, Node.start, Node.stop]

end Quotes

/-! ## Vendor prefixes -/

namespace VendorPrefix

variable {t : Text} {n : Node} {v : Violation}

theorem ofName_eq_some {rule : Rule} (h : ofName rule t n = some v) :
    v.rule = rule ∧ v.fix = none := by
  unfold ofName at h
  split at h
  · rw [← Option.some.inj h]
    exact ⟨rfl, rfl⟩
  · cases h

theorem ofProperty_eq_some (h : ofProperty t n = some v) :
    v.rule = .propertyNoVendorPrefix ∧ v.fix = none := by
  unfold ofProperty at h
  split at h
  · split at h
    · exact ofName_eq_some h
    · cases h
  · cases h

theorem ofPseudo_eq_some (h : ofPseudo t n = some v) :
    v.rule = .selectorNoVendorPrefix ∧ v.fix = none := by
  obtain ⟨⟨colon, name⟩, -, h⟩ := Option.bind_eq_some_iff.1 h
  simp only at h
  split at h
  · rw [← Option.some.inj h]
    exact ⟨rfl, rfl⟩
  · cases h

theorem ofAtKeyword_eq_some (h : ofAtKeyword t n = some v) :
    v.rule = .atRuleNoVendorPrefix ∧ v.fix = none := by
  unfold ofAtKeyword at h
  split at h
  · simp only at h
    split at h
    · rw [← Option.some.inj h]
      exact ⟨rfl, rfl⟩
    · cases h
  · cases h

/-- The rules that a violation in `prefixViolations` may be of. -/
def rules : List Rule :=
  [.propertyNoVendorPrefix, .valueNoVendorPrefix, .selectorNoVendorPrefix,
    .mediaFeatureNameNoVendorPrefix, .atRuleNoVendorPrefix]

/-- The rules about vendor prefixes repair nothing. -/
theorem of_mem_prefixViolations {enabled : RuleSet}
    (h : v ∈ StyleCheck.prefixViolations t enabled n) : v.rule ∈ rules ∧ v.fix = none := by
  have henabled : ∀ {rule : Rule} {vs : List Violation},
      v ∈ StyleCheck.whenEnabled enabled rule vs → v ∈ vs := by
    intro rule vs hv
    unfold StyleCheck.whenEnabled at hv
    split at hv
    · exact hv
    · cases hv
  have hrule : ∀ {rule : Rule}, rule ∈ rules → v.rule = rule ∧ v.fix = none →
      v.rule ∈ rules ∧ v.fix = none := fun hmem hv => ⟨hv.1 ▸ hmem, hv.2⟩
  unfold StyleCheck.prefixViolations at h
  rcases List.mem_append.1 h with h | h
  · split at h
    · rcases List.mem_append.1 h with h | h
      · exact hrule (by decide) (ofProperty_eq_some (Option.mem_toList.1 (henabled h)))
      · obtain ⟨value, -, hvalue⟩ := List.mem_filterMap.1 (henabled h)
        exact hrule (by decide) (ofName_eq_some hvalue)
    split at h
    · obtain ⟨pseudo, -, hpseudo⟩ := List.mem_filterMap.1 (henabled h)
      exact hrule (by decide) (ofPseudo_eq_some hpseudo)
    split at h
    · obtain ⟨feature, -, hfeature⟩ := List.mem_filterMap.1 (henabled h)
      exact hrule (by decide) (ofName_eq_some hfeature)
    · cases h
  · exact hrule (by decide) (ofAtKeyword_eq_some (Option.mem_toList.1 (henabled h)))

theorem fix_of_mem_prefixViolations {enabled : RuleSet}
    (h : v ∈ StyleCheck.prefixViolations t enabled n) : v.fix = none :=
  (of_mem_prefixViolations h).2

end VendorPrefix

/-! ## The whole sheet -/

namespace StyleCheck

/-- Whether what is at a spot is indented as expected. -/
def Spot.IsIndented (d : Document) (o : RuleOptions) : Spot → Prop
  | .statement depth n => StyleIndentation.Fits d o.styleSpaces depth n
  | .brace depth n => StyleIndentation.Fits d o.styleSpaces depth n

/-- Whether the strings at a spot, as far as they lie in the document, have the
expected delimiters or hold them. -/
def Spot.IsQuoted (d : Document) (o : RuleOptions) : Spot → Prop
  | .statement _ n => ∀ l ∈ strings n, d.contains l.start l.stop = true →
      Quotes.requote? o.quote (l.text d.text) = none
  | .brace _ _ => True

/-- Whether a sheet is indented and quoted as expected, as far as there are
rules about it. -/
def IsTidy (d : Document) (rules : RuleSet) (o : RuleOptions) (root : Node) : Prop :=
  ∀ s ∈ spots 0 root.children,
    (rules.contains .indentation = true → s.IsIndented d o) ∧
      (rules.contains .stringQuotes = true → s.IsQuoted d o)

variable {d : Document} {rules : RuleSet} {o : RuleOptions}

theorem noRepairs_whenEnabled {rule : Rule} {vs : List Violation} :
    NoRepairs d (whenEnabled rules rule vs) ↔ (rules.contains rule = true → NoRepairs d vs) := by
  unfold whenEnabled
  split
  · rename_i h
    exact ⟨fun hvs _ => hvs, fun hvs => hvs h⟩
  · rename_i h
    exact ⟨fun _ h' => absurd h' h, fun _ => noRepairs_of_no_fix (by simp)⟩

/-- The rules have nothing to repair at a spot that is tidy. -/
theorem noRepairs_violationsAt (s : Spot) : NoRepairs d (violationsAt d rules o s) ↔
    (rules.contains .indentation = true → s.IsIndented d o) ∧
      (rules.contains .stringQuotes = true → s.IsQuoted d o) := by
  cases s with
  | brace depth n =>
    rw [violationsAt, noRepairs_whenEnabled, StyleIndentation.noRepairs_iff_fits]
    exact ⟨fun h => ⟨h, fun _ => trivial⟩, fun h => h.1⟩
  | statement depth n =>
    have hprefixes : NoRepairs d (prefixViolations d.text rules n) :=
      noRepairs_of_no_fix fun v hv => VendorPrefix.fix_of_mem_prefixViolations hv
    have hquotes : NoRepairs d ((strings n).filterMap (Quotes.ofString d.text o.quote)) ↔
        Spot.IsQuoted d o (.statement depth n) := by
      rw [noRepairs_filterMap]
      exact forall₂_congr fun l _ => Quotes.noRepairs_iff
    rw [violationsAt, noRepairs_append, noRepairs_append, noRepairs_whenEnabled,
      noRepairs_whenEnabled, StyleIndentation.noRepairs_iff_fits, hquotes]
    exact ⟨fun h => ⟨h.1.1, h.2⟩, fun h => ⟨⟨h.1, hprefixes⟩, h.2⟩⟩

/-- A sheet has nothing to repair when it is tidy: repeated declarations are
only reported. -/
theorem noRepairs_iff_isTidy {parser : Parser} {root : Node} {vs : List Violation}
    (h : (violations parser d rules o root).value = .ok vs) :
    NoRepairs d vs ↔ IsTidy d rules o root := by
  unfold violations at h
  rw [Logged.value_bind] at h
  split at h
  · cases h
  · rename_i findings _
    have hfindings : NoRepairs d (findings.map Finding.toViolation) := by
      refine noRepairs_of_no_fix fun v hv => ?_
      obtain ⟨f, -, rfl⟩ := List.mem_map.1 hv
      rfl
    rw [← Except.ok.inj h, noRepairs_append, noRepairs_flatMap]
    simp only [hfindings, true_and, noRepairs_violationsAt]
    rfl

end StyleCheck

end WebLint
