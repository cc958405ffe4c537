import WebLint.Proofs.Checker.Rounds
import WebLint.Proofs.Diagnostic
import WebLint.Proofs.Path.Names

/-!
# A file by another spelling of its path

Paths that have the same components are the same, however they are spelled.  When they can
both be read they lead to the same text, and what is found in it differs in nothing but the
spelling of the path.

What is proved here:

* `read_of_same` — paths that are the same lead to the same text;
* `violations_named` — what an analysis finds in a document does not depend on its path;
* `checkText_of_same` — nor does what is found in a text, up to the spelling.
-/

namespace WebLint

/-! ## Paths and documents -/

/-- Paths that are the same lead to the same text, if they lead to one. -/
theorem Files.read_of_same {fs : Files} {p q : Path} {t u : Text} (h : p.same q = true)
    (hp : fs.read p = .ok t) (hq : fs.read q = .ok u) : t = u := by
  obtain ⟨names, hpnames, -, hfile⟩ := read_eq_ok_iff.1 hp
  obtain ⟨names', hqnames, -, hfile'⟩ := read_eq_ok_iff.1 hq
  have hsame : names = names' := by
    rw [resolve_eq_namesFrom hpnames, resolve_eq_namesFrom hqnames, Path.namesFrom, Path.namesFrom,
      Path.components_of_same h]
  rw [hsame, hfile'] at hfile
  exact (Contents.text.inj (Option.some.inj hfile)).symm

namespace Document

/-- A document with another path. -/
def named (q : Path) (d : Document) : Document := { d with file := q }

/-- The document of a text depends on the path by its extension only. -/
theorem ofFile_of_same {p q : Path} (h : p.same q = true) (parser : Parser) (text : Text)
    (language : Language) :
    ofFile parser q text language = (ofFile parser p text language).named q := by
  have hmarkup : q.isMarkup = p.isMarkup := by
    unfold Path.isMarkup
    rw [Path.kind_of_same h]
  rw [named, ofFile, ofFile, hmarkup]

theorem parse_named {parser : Parser} {d : Document} {root : Node} (q : Path)
    (h : d.parse parser = .ok root) : (d.named q).parse parser = .ok root := by
  have hranges : (d.named q).ranges = d.ranges := rfl
  have hparse : parser (d.named q).language.grammar (d.named q).text d.ranges =
      parser d.language.grammar d.text d.ranges := rfl
  simp only [parse, hranges, hparse] at h ⊢
  split at h
  · rename_i horder
    rw [if_pos horder]
    split at h
    · cases h
    · rename_i herror
      rw [if_neg herror]
      exact h
  · cases h

end Document

/-! ## Analyses -/

variable {parser : Parser} {d : Document} {rules : RuleSet} {o : RuleOptions} {root : Node}

namespace StyleCheck

theorem violationsAt_named (q : Path) (s : Spot) :
    violationsAt (d.named q) rules o s = violationsAt d rules o s := by
  cases s with
  | statement depth n => rfl
  | brace depth n => rfl

/-- What is found in a stylesheet does not depend on its path. -/
theorem violations_named {vs : List Violation} (q : Path)
    (h : (violations parser d rules o root).value = .ok vs) :
    (violations parser (d.named q) rules o root).value = .ok vs := by
  have hsheet : Sheet.ofTree (d.named q).text root = Sheet.ofTree d.text root := rfl
  rw [violations, Logged.value_bind] at h ⊢
  rw [hsheet, funext (violationsAt_named q)]
  split at h
  · cases h
  · exact h

end StyleCheck

namespace ScriptIndentation

theorem checkLines_named (q : Path) (lines : List Text) (row : Nat) (expected : Expected)
    (placed : List (Nat × Text)) :
    checkLines (d.named q) o root lines row expected placed =
      checkLines d o root lines row expected placed := by
  induction placed generalizing row expected with
  | nil => rfl
  | cons line placed ih =>
    have hline : checkLine (d.named q) o root lines expected line.1 line.2 =
        checkLine d o root lines expected line.1 line.2 := rfl
    rw [checkLines, checkLines, hline]
    split
    · exact ih _ _
    · rw [ih]

theorem expectedWidths_named (q : Path) :
    expectedWidths (d.named q) o root = expectedWidths d o root := by
  have hwidths : ∀ placed row expected, widths (d.named q) o root d.text.lines row expected placed =
      widths d o root d.text.lines row expected placed := by
    intro placed
    induction placed with
    | nil => exact fun _ _ => rfl
    | cons line placed ih =>
      intro row expected
      have hline : lineWidth (d.named q) o root d.text.lines expected line.1 line.2 =
          lineWidth d o root d.text.lines expected line.1 line.2 := rfl
      rw [widths, widths, hline]
      split
      · rw [ih]
      · rw [ih]
  exact hwidths _ _ _

end ScriptIndentation

namespace ScriptCheck

/-- What is found in a script does not depend on its path. -/
theorem violations_named (q : Path) :
    (violations (d.named q) rules o root).value = (violations d rules o root).value := by
  have hlines : ScriptIndentation.violations (d.named q) o root =
      ScriptIndentation.violations d o root := ScriptIndentation.checkLines_named q _ _ _ _
  rw [violations, violations, hlines]
  rfl

end ScriptCheck

/-! ## Checkers -/

/-- A diagnostic about a file with another path. -/
def Diagnostic.about (q : Path) (d : Diagnostic) : Diagnostic := { d with file := q }

namespace Checker

variable {c : Checker} {plan : Plan} {p q : Path} {text : Text} {found : List Diagnostic}

theorem analysis_named (hc : c ∈ builtin) {vs : List Violation} (q : Path)
    (h : c.analysis parser plan d root = .ok vs) :
    c.analysis parser plan (d.named q) root = .ok vs := by
  rcases mem_builtin.1 hc with rfl | rfl
  · obtain ⟨hfits, hvs⟩ := StyleCheck.analyze_eq_ok_iff.1 h
    exact StyleCheck.analyze_eq_ok_iff.2 ⟨hfits, StyleCheck.violations_named q hvs⟩
  · obtain ⟨hfits, hvs⟩ := ScriptCheck.analyze_eq_ok_iff.1 h
    refine ScriptCheck.analyze_eq_ok_iff.2 ⟨?_, (ScriptCheck.violations_named q).trans hvs⟩
    rwa [ScriptCheck.overflows, ScriptIndentation.overflows,
      ScriptIndentation.expectedWidths_named]

/-- Diagnostics of one file are in the same order by whatever path it goes. -/
theorem sort_about (p q : Path) {ds : List Diagnostic} (hfile : ∀ d ∈ ds, d.file = p) :
    Diagnostic.sort (ds.map (Diagnostic.about q)) = (Diagnostic.sort ds).map (.about q) := by
  refine (List.map_mergeSort fun a ha b hb => ?_).symm
  rw [Diagnostic.le, Diagnostic.le, Diagnostic.compare, Diagnostic.compare, hfile a ha, hfile b hb]
  have hself : ∀ r : Path, Path.compare r r = .eq := fun r =>
    @Std.ReflCmp.compare_self _ Path.compare _ r
  rw [hself]
  show _ = (Ordering.then (Path.compare q q) _).isLE
  rw [hself]
  rfl

/-- **What is found in a text does not depend on how the path of its file is spelled**, up to
the spelling itself. -/
theorem checkText_of_same (hc : c ∈ builtin) (h : p.same q = true)
    (hfound : (c.checkText parser plan p text).value = .ok found) :
    (c.checkText parser plan q text).value = .ok (found.map (.about q)) := by
  have hdocument := Document.ofFile_of_same h parser text c.language
  rcases checkText_eq_ok hfound with ⟨hempty, rfl⟩ | ⟨root, vs, hempty, hparse, hvs, rfl⟩
  · refine checkText_of_isEmpty ?_
    rw [document, hdocument]
    exact hempty
  · have hempty' : (c.document parser q text).isEmpty = false := by
      rw [document, hdocument]
      exact hempty
    have hparse' : (c.document parser q text).parse parser = .ok root := by
      rw [document, hdocument]
      exact Document.parse_named q hparse
    have hvs' : c.analysis parser plan (c.document parser q text) root = .ok vs := by
      rw [document, hdocument]
      exact analysis_named hc q hvs
    rw [checkText_of_analysis hempty' hparse' hvs', document, hdocument,
      ← sort_about p q fun x hx => ?_, List.map_map]
    · rfl
    · obtain ⟨v, -, rfl⟩ := List.mem_map.1 hx
      rfl

end Checker
end WebLint
