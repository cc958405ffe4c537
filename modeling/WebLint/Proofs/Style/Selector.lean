import Mathlib.Data.List.Find
import WebLint.Proofs.Checker
import WebLint.Proofs.Style.Duplicates

/-!
# Selectors that stand alone

The search for repeated declarations takes each selector of a sheet out of its rule and
parses it in front of an empty block.  Before that it looks for braces in the text, so as
not to close the block too early, and there it goes too far: a brace in a string does not
close anything, but such a selector is refused all the same.

What is proved here:

* `Selector.StandsAlone.isRejected_eq` — a selector that stands alone is refused when it
  holds a brace, and only then;
* `exists_detect_iff`, `exists_checkText_iff` — a search, and with it the check of a sheet,
  fails only for a selector that is refused;
* `succeeds_iff_no_brace` — where all selectors stand alone, nothing fails but for a brace;
* `fails_bracedText` — a brace in a string is enough.
-/

namespace WebLint
namespace Selector

/-- Whether a text is a selector on its own: it is not blank, and in front of an empty block
it makes up a single style rule. -/
structure StandsAlone (parser : Parser) (selector : String) : Prop where
  /-- There is something in the text. -/
  solid : Text.isBlank selector.toList = false
  /-- The rule is one of the grammar. -/
  clean : (parser .css (inRule selector) none).hasError = false
  /-- There is nothing but the rule, which starts with selectors. -/
  single : ∃ rule selectors others,
    (parser .css (inRule selector) none).root.namedChildren = [rule] ∧ rule.kind = "rule_set" ∧
      rule.namedChildren = selectors :: others ∧ selectors.kind = "selectors"

/-- Whether there is a brace in a text. -/
def HoldsBrace (selector : String) : Prop :=
  '\x7b' ∈ selector.toList ∨ '\x7d' ∈ selector.toList

instance (selector : String) : Decidable (HoldsBrace selector) :=
  inferInstanceAs (Decidable (_ ∨ _))

variable {parser : Parser} {selector : String}

theorem isHopeless_eq (h : StandsAlone parser selector) :
    isHopeless selector = decide (HoldsBrace selector) := by
  rw [isHopeless, h.solid, Bool.false_or, Bool.eq_iff_iff, decide_eq_true_iff, List.any_eq_true]
  simp only [Bool.or_eq_true, beq_iff_eq]
  constructor
  · rintro ⟨c, hc, rfl | rfl⟩
    · exact Or.inl hc
    · exact Or.inr hc
  · rintro (hc | hc)
    · exact ⟨_, hc, Or.inl rfl⟩
    · exact ⟨_, hc, Or.inr rfl⟩

/-- A selector that stands alone is taken apart unless it holds a brace. -/
theorem StandsAlone.parse_eq (h : StandsAlone parser selector) :
    ∃ parts, parse parser selector =
      if HoldsBrace selector then .error ⟨selector⟩ else .ok parts := by
  obtain ⟨rule, selectors, others, hroot, hrule, hfirst, hkind⟩ := h.single
  have hnode : selectorsNode? (parser .css (inRule selector) none).root = some selectors := by
    rw [selectorsNode?, hroot]
    simp [hrule, hfirst, hkind]
  refine ⟨allParts (inRule selector) selectors.children, ?_⟩
  rw [parse, isHopeless_eq h]
  simp only [h.clean, hnode, decide_eq_true_eq, Bool.false_eq_true, if_false]

theorem StandsAlone.isRejected_eq (h : StandsAlone parser selector) :
    Duplicates.isRejected parser selector = decide (HoldsBrace selector) := by
  obtain ⟨parts, hparse⟩ := h.parse_eq
  rw [Duplicates.isRejected, hparse]
  by_cases hbrace : HoldsBrace selector
  · simp [hbrace, Except.isOk, Except.toBool]
  · simp [hbrace, Except.isOk, Except.toBool]

end Selector

namespace Duplicates

open Selector

variable {parser : Parser} {sheet : Sheet}

/-- A search fails with the first selector that is refused. -/
theorem error_searchSheet : (searchSheet (judge parser) sheet).error =
    ((selectorsOf sheet).find? (isRejected parser)).map SelectorError.mk := by
  rw [searchSheet, search_error, malformed_visits]

theorem detect_eq_error {s : String} (h : (selectorsOf sheet).find? (isRejected parser) = some s) :
    (detect parser sheet true).value = .error ⟨s⟩ := by
  change (searchSheet (judge parser) sheet).findings = _
  rw [Search.findings, error_searchSheet, h]
  rfl

theorem detect_eq_ok (h : (selectorsOf sheet).find? (isRejected parser) = none) :
    ∃ findings, (detect parser sheet true).value = .ok findings := by
  change ∃ findings, (searchSheet (judge parser) sheet).findings = .ok findings
  rw [Search.findings, error_searchSheet, h]
  exact ⟨_, rfl⟩

/-- A sheet is searched successfully when no selector is refused, and only then. -/
theorem exists_detect_iff : (∃ findings, (detect parser sheet true).value = .ok findings) ↔
    (selectorsOf sheet).find? (isRejected parser) = none := by
  refine ⟨?_, detect_eq_ok⟩
  rintro ⟨findings, hfindings⟩
  refine Option.eq_none_iff_forall_ne_some.2 fun s hs => ?_
  rw [detect_eq_error hs] at hfindings
  cases hfindings

/-- Where all selectors stand alone, the first one that is refused is the first with a
brace. -/
theorem find?_isRejected {ss : List String} (h : ∀ s ∈ ss, StandsAlone parser s) :
    ss.find? (isRejected parser) = ss.find? fun s => decide (HoldsBrace s) :=
  List.find?_congr fun s hs => (h s hs).isRejected_eq

end Duplicates

/-! ## Checking a sheet -/

namespace Checker

open Duplicates Selector

/-- Where the search for repeated declarations fails, the analysis of a sheet does. -/
theorem analysis_of_error {parser : Parser} {plan : Plan} {d : Document} {root : Node}
    {enabled : Bool} {e : SelectorError}
    (hrules : (plan.rules.forLanguage .style).contains .noDuplicateDeclarations = enabled)
    (h : (detect parser (Sheet.ofTree d.text root) enabled).value = .error e) :
    style.analysis parser plan d root = .error (.malformedSelector d.file e) := by
  change (StyleCheck.analyze parser d (plan.rules.forLanguage .style) plan.preset.options
    root).value = _
  rw [StyleCheck.value_analyze, StyleCheck.violations, Logged.value_bind, hrules, h]
  exact ite_self _

/-- Whether a width that is asked for in a sheet outgrows a machine word. -/
abbrev styleOverflows (plan : Plan) (d : Document) (root : Node) : Bool :=
  StyleCheck.overflows d (plan.rules.forLanguage .style) plan.preset.options root

/-- Where the search succeeds, only widths can make the analysis fail. -/
theorem analysis_of_ok {parser : Parser} {plan : Plan} {d : Document} {root : Node}
    {enabled : Bool} {findings : List Finding}
    (hrules : (plan.rules.forLanguage .style).contains .noDuplicateDeclarations = enabled)
    (h : (detect parser (Sheet.ofTree d.text root) enabled).value = .ok findings) :
    ∃ vs, style.analysis parser plan d root =
      if styleOverflows plan d root then .error (.overflow d.file) else .ok vs := by
  change ∃ vs, (StyleCheck.analyze parser d (plan.rules.forLanguage .style)
    plan.preset.options root).value = _
  rw [StyleCheck.value_analyze, StyleCheck.violations, Logged.value_bind, hrules, h]
  exact ⟨_, rfl⟩

/-- Repeated declarations are looked for when the rule about them is checked. -/
theorem contains_rules_style {rules : RuleSet} :
    (rules.forLanguage .style).contains .noDuplicateDeclarations = true ↔
      .noDuplicateDeclarations ∈ rules := by
  rw [List.contains_iff_mem, RuleSet.forLanguage, List.mem_filter]
  exact and_iff_left rfl

section

variable {parser : Parser} {plan : Plan} {file : Path} {text : Text} {root : Node}
  (hparse : (style.document parser file text).parse parser = .ok root)
include hparse

/-- The first selector that is refused makes the whole check fail. -/
theorem checkText_of_rejected {s : String}
    (hempty : (style.document parser file text).isEmpty = false)
    (hrule : .noDuplicateDeclarations ∈ plan.rules)
    (h : (selectorsOf (Sheet.ofTree text root)).find? (isRejected parser) = some s) :
    (style.checkText parser plan file text).value = .error (.malformedSelector file ⟨s⟩) :=
  checkText_of_error hempty hparse
    (analysis_of_error (contains_rules_style.2 hrule) (detect_eq_error h))

/-- Nothing else makes it fail, unless a width outgrows a machine word. -/
theorem checkText_of_accepted (hempty : (style.document parser file text).isEmpty = false)
    (h : .noDuplicateDeclarations ∈ plan.rules →
      (selectorsOf (Sheet.ofTree text root)).find? (isRejected parser) = none) :
    if styleOverflows plan (style.document parser file text) root then
      (style.checkText parser plan file text).value = .error (.overflow file)
    else ∃ found, (style.checkText parser plan file text).value = .ok found := by
  obtain ⟨findings, hfindings⟩ : ∃ findings, (detect parser (Sheet.ofTree text root)
      ((plan.rules.forLanguage .style).contains .noDuplicateDeclarations)).value =
        .ok findings := by
    cases hrules : (plan.rules.forLanguage .style).contains .noDuplicateDeclarations with
    | true => exact detect_eq_ok (h (contains_rules_style.1 hrules))
    | false => exact ⟨[], rfl⟩
  obtain ⟨vs, hvs⟩ := analysis_of_ok (d := style.document parser file text) rfl hfindings
  split
  · rename_i hwide
    rw [if_pos hwide] at hvs
    exact checkText_of_error hempty hparse hvs
  · rename_i hwide
    rw [if_neg hwide] at hvs
    exact ⟨_, checkText_of_analysis hempty hparse hvs⟩

theorem exists_checkText_iff :
    (∃ found, (style.checkText parser plan file text).value = .ok found) ↔
      ((style.document parser file text).isEmpty = false →
        (.noDuplicateDeclarations ∈ plan.rules →
          (selectorsOf (Sheet.ofTree text root)).find? (isRejected parser) = none) ∧
        styleOverflows plan (style.document parser file text) root = false) := by
  cases hempty : (style.document parser file text).isEmpty with
  | true =>
    refine iff_of_true ⟨[], checkText_of_isEmpty hempty⟩ fun h => ?_
    cases h
  | false =>
    constructor
    · rintro ⟨found, hfound⟩ -
      have haccepted : .noDuplicateDeclarations ∈ plan.rules →
          (selectorsOf (Sheet.ofTree text root)).find? (isRejected parser) = none := by
        intro hrule
        refine Option.eq_none_iff_forall_ne_some.2 fun s hs => ?_
        rw [checkText_of_rejected hparse hempty hrule hs] at hfound
        cases hfound
      refine ⟨haccepted, Bool.eq_false_iff.2 fun hwide => ?_⟩
      have hcheck := checkText_of_accepted hparse hempty haccepted
      rw [if_pos hwide, hfound] at hcheck
      cases hcheck
    · intro h
      obtain ⟨haccepted, hfits⟩ := h rfl
      have hcheck := checkText_of_accepted hparse hempty haccepted
      rwa [if_neg (by simp [hfits])] at hcheck

/-- When a check fails, the error names the first selector that is refused, or a width has
outgrown a machine word. -/
theorem error_checkText {e : Failure}
    (he : (style.checkText parser plan file text).value = .error e) :
    (∃ s, (selectorsOf (Sheet.ofTree text root)).find? (isRejected parser) = some s ∧
      e = .malformedSelector file ⟨s⟩) ∨
    (e = .overflow file ∧ styleOverflows plan (style.document parser file text) root = true) := by
  cases hempty : (style.document parser file text).isEmpty with
  | true =>
    rw [checkText_of_isEmpty hempty] at he
    cases he
  | false =>
    by_cases haccepted : .noDuplicateDeclarations ∈ plan.rules →
        (selectorsOf (Sheet.ofTree text root)).find? (isRejected parser) = none
    · have hcheck := checkText_of_accepted hparse hempty haccepted
      split at hcheck
      · rename_i hwide
        exact Or.inr ⟨Except.error.inj (he.symm.trans hcheck), hwide⟩
      · obtain ⟨found, hfound⟩ := hcheck
        rw [hfound] at he
        cases he
    · obtain ⟨hrule, hfirst⟩ := not_forall.1 haccepted
      obtain ⟨s, hs⟩ := Option.ne_none_iff_exists'.1 hfirst
      rw [checkText_of_rejected hparse hempty hrule hs] at he
      exact Or.inl ⟨s, hs, (Except.error.inj he).symm⟩

end

/-- **Valid selectors are refused for their braces.**  A selector that stands alone is taken
apart when it holds no brace, and only then.  So where all selectors of a sheet stand alone,
the search for repeated declarations succeeds when none of them holds one, and only then, and
whether the sheet can be checked depends on nothing else, if only the indentations it should
have fit in machine words: if repeated declarations are looked for at all, the first selector
with a brace makes the whole check fail. -/
theorem succeeds_iff_no_brace (parser : Parser) :
    (∀ s, StandsAlone parser s →
      ((∃ parts, Selector.parse parser s = .ok parts) ↔ ¬ HoldsBrace s)) ∧
    ∀ (text : Text) (root : Node),
      (∀ s ∈ selectorsOf (Sheet.ofTree text root), StandsAlone parser s) →
      ((∃ findings, (detect parser (Sheet.ofTree text root) true).value = .ok findings) ↔
        ∀ s ∈ selectorsOf (Sheet.ofTree text root), ¬ HoldsBrace s) ∧
      ∀ (plan : Plan) (file : Path),
        (style.document parser file text).parse parser = .ok root →
        ((∃ found, (style.checkText parser plan file text).value = .ok found) ↔
          ((style.document parser file text).isEmpty = false →
            (.noDuplicateDeclarations ∈ plan.rules →
              ∀ s ∈ selectorsOf (Sheet.ofTree text root), ¬ HoldsBrace s) ∧
            styleOverflows plan (style.document parser file text) root = false)) ∧
        ∀ e, (style.checkText parser plan file text).value = .error e →
          (∃ s, (selectorsOf (Sheet.ofTree text root)).find? (fun s => decide (HoldsBrace s)) =
            some s ∧ e = .malformedSelector file ⟨s⟩) ∨
          (e = .overflow file ∧
            styleOverflows plan (style.document parser file text) root = true) := by
  refine ⟨fun s hs => ?_, fun text root halone => ?_⟩
  · obtain ⟨parts, hparse⟩ := hs.parse_eq
    rw [hparse]
    by_cases hbrace : HoldsBrace s
    · simp [hbrace]
    · simp [hbrace]
  have hfind := find?_isRejected halone
  have hnone : (selectorsOf (Sheet.ofTree text root)).find? (isRejected parser) = none ↔
      ∀ s ∈ selectorsOf (Sheet.ofTree text root), ¬ HoldsBrace s := by
    rw [hfind, List.find?_eq_none]
    simp
  refine ⟨exists_detect_iff.trans hnone, fun plan file hparse => ⟨?_, fun e he => ?_⟩⟩
  · rw [exists_checkText_iff hparse, hnone]
  · rw [← hfind]
    exact error_checkText hparse he

/-! ### Two sheets -/

/-- The tree of a sheet with the selector `a` in front of an empty block. -/
def plainRule : Node := treeOfSelector (.construct "tag_name" 0 1)

theorem standsAlone_plain : StandsAlone linkTrees.parser "a" where
  solid := by decide
  clean := rfl
  single := ⟨_, _, _, rfl, rfl, rfl, rfl⟩

/-- The plan to look for repeated declarations. -/
def repetitionPlan : Plan := .ofPaths (Preset.setLevel {} .noDuplicateDeclarations .error) false []

/-- A sheet with a selector that stands alone and holds no brace is checked. -/
theorem succeeds_plainRule :
    StandsAlone linkTrees.parser "a" ∧
      (style.document linkTrees.parser ⟨"a.css"⟩ (inRule "a")).parse linkTrees.parser =
        .ok plainRule ∧
      selectorsOf (Sheet.ofTree (inRule "a") plainRule) = ["a"] ∧
      (∃ parts, Selector.parse linkTrees.parser "a" = .ok parts) ∧
      (∃ findings, (detect linkTrees.parser (Sheet.ofTree (inRule "a") plainRule) true).value =
        .ok findings) ∧
      ∃ found, (style.checkText linkTrees.parser repetitionPlan ⟨"a.css"⟩ (inRule "a")).value =
        .ok found := by
  have hplain : ¬ HoldsBrace "a" := by decide
  have hselectors : selectorsOf (Sheet.ofTree (inRule "a") plainRule) = ["a"] := by decide
  have hparse : (style.document linkTrees.parser ⟨"a.css"⟩ (inRule "a")).parse linkTrees.parser =
      .ok plainRule := rfl
  have hone : ∀ {P : String → Prop}, P "a" →
      ∀ s ∈ selectorsOf (Sheet.ofTree (inRule "a") plainRule), P s := by
    intro P h s hs
    rw [hselectors, List.mem_singleton] at hs
    rwa [hs]
  obtain ⟨hparts, hsheet⟩ := succeeds_iff_no_brace linkTrees.parser
  obtain ⟨hdetect, hcheck⟩ := hsheet (inRule "a") plainRule (hone standsAlone_plain)
  exact ⟨standsAlone_plain, hparse, hselectors, (hparts "a" standsAlone_plain).2 hplain,
    hdetect.2 (hone hplain), (hcheck repetitionPlan ⟨"a.css"⟩ hparse).1.2 fun _ =>
      ⟨fun _ => hone hplain, by decide⟩⟩

/-- A selector with a brace in a string. -/
def bracedText : String := "a[b='\x7b']"

/-- The tree of a sheet with this selector in front of an empty block. -/
def bracedRule : Node :=
  treeOfSelector (.construct "attribute_selector" 0 8
    [.construct "tag_name" 0 1, .token "[" 1, .construct "attribute_name" 2 3, .token "=" 3,
     .construct "string_value" 4 7
      [.token "'" 4, .construct "string_content" 5 6, .token "'" 6], .token "]" 7])

/-- The parser that knows this sheet. -/
def bracedTrees : ParseTable := [⟨.css, inRule bracedText, none, ⟨false, bracedRule⟩⟩]

theorem standsAlone_bracedText : StandsAlone bracedTrees.parser bracedText where
  solid := by decide
  clean := rfl
  single := ⟨_, _, _, rfl, rfl, rfl, rfl⟩

/-- A brace in a string makes a selector be refused that stands alone, a search fail where all
selectors stand alone, and a sheet without errors be reported as malformed. -/
theorem fails_bracedText :
    (¬ ∀ s, StandsAlone bracedTrees.parser s →
      ∃ parts, Selector.parse bracedTrees.parser s = .ok parts) ∧
    (¬ ∀ text root, (∀ s ∈ selectorsOf (Sheet.ofTree text root),
        StandsAlone bracedTrees.parser s) →
      ∃ findings, (detect bracedTrees.parser (Sheet.ofTree text root) true).value =
        .ok findings) ∧
    ¬ ∀ plan file text root,
      (style.document bracedTrees.parser file text).parse bracedTrees.parser = .ok root →
      (∀ s ∈ selectorsOf (Sheet.ofTree text root), StandsAlone bracedTrees.parser s) →
      ∃ found, (style.checkText bracedTrees.parser plan file text).value = .ok found := by
  have hselectors : selectorsOf (Sheet.ofTree (inRule bracedText) bracedRule) = [bracedText] := by
    decide
  have hparse : (style.document bracedTrees.parser ⟨"a.css"⟩ (inRule bracedText)).parse
      bracedTrees.parser = .ok bracedRule := rfl
  have halone : ∀ s ∈ selectorsOf (Sheet.ofTree (inRule bracedText) bracedRule),
      StandsAlone bracedTrees.parser s := by
    intro s hs
    rw [hselectors, List.mem_singleton] at hs
    rw [hs]
    exact standsAlone_bracedText
  refine ⟨fun h => ?_, fun h => ?_, fun h => ?_⟩
  · obtain ⟨parts, hparts⟩ := h bracedText standsAlone_bracedText
    cases hparts
  · obtain ⟨findings, hfindings⟩ := h _ _ halone
    rw [detect_eq_error (s := bracedText) (by rw [hselectors]; decide)] at hfindings
    cases hfindings
  · obtain ⟨found, hfound⟩ := h repetitionPlan _ _ _ hparse halone
    rw [checkText_of_rejected (s := bracedText) hparse rfl (by decide)
      (by rw [hselectors]; decide)] at hfound
    cases hfound

end Checker
end WebLint
