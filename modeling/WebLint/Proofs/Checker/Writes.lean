import WebLint.Proofs.Checker.Rounds
import WebLint.Proofs.Fixing.Selection

/-!
# How often a file is written

Each time a repaired text is written to a file the log says so.  A repair writes
once in every round that changes the text, and there is another round only when
fixes have been skipped.

What is proved here:

* `writes_checkText` — checking a text writes nothing;
* `lintFix_of_not_skipped` — when the first round skips no fix it is the only
  one, and the file is written at most once;
* `lintFix_of_apart` — as it does when no fixes overlap.
-/

namespace WebLint
namespace Checker

variable {c : Checker} {parser : Parser} {plan : Plan} {file : Path} {text : Text} {fs : Files}

/-- What the log says when a file is written. -/
def writing (file : Path) : Event := ⟨.debug, .checking, "Writing fixes to " ++ file.spelling⟩

/-- How often a log says that a file is written. -/
def writes (file : Path) (events : List Event) : Nat := events.count (writing file)

@[simp] theorem writes_nil : writes file [] = 0 := rfl

@[simp] theorem writes_append (es es' : List Event) :
    writes file (es ++ es') = writes file es + writes file es' :=
  List.count_append

/-- What another part of the program logs is no write. -/
theorem writes_eq_zero {events : List Event} (h : ∀ e ∈ events, e.area ≠ .checking) :
    writes file events = 0 := by
  refine List.count_eq_zero.2 fun hmem => ?_
  exact h _ hmem rfl

/-- Checking a text writes nothing. -/
theorem writes_checkText (hc : c ∈ builtin) :
    writes file (c.checkText parser plan file text).events = 0 := by
  refine writes_eq_zero fun e he => ?_
  have hanalyze : ∀ {d : Document} {rules : RuleSet} {o : RuleOptions} {root : Node},
      e ∈ (c.analyze parser d rules o root).events → e.area ≠ .checking := by
    intro d rules o root he
    rcases mem_builtin.1 hc with rfl | rfl
    · change e ∈ (StyleCheck.analyze parser d rules o root).events at he
      rw [StyleCheck.events_analyze, StyleCheck.violations, Logged.events_bind,
        List.mem_append] at he
      rcases he with he | he
      · unfold Duplicates.detect at he
        split at he
        · obtain ⟨f, -, rfl⟩ := List.mem_map.1 he
          exact fun h => nomatch h
        · cases he
      · split at he
        · cases he
        · cases he
    · change e ∈ (ScriptCheck.analyze d rules o root).events at he
      unfold ScriptCheck.analyze at he
      split at he
      · cases he
      · cases he
  unfold checkText at he
  simp only at he
  split at he
  · cases he
  split at he
  · cases he
  · rw [Logged.events_bind, Logged.events_pure, List.append_nil] at he
    exact hanalyze he

theorem writes_lintOnly (hc : c ∈ builtin) :
    writes file (c.lintOnly parser plan file fs).events = 0 := by
  unfold lintOnly
  split
  · rfl
  · exact writes_checkText hc

theorem writes_applyLogged (fixes : List Fix) :
    writes file (Fixing.applyLogged fixes text).events = 0 := by
  refine writes_eq_zero fun e he => ?_
  rw [Fixing.applyLogged, Logged.events_bind, Logged.events_pure, List.append_nil] at he
  obtain ⟨f, -, rfl⟩ := List.mem_map.1 he
  exact fun h => nomatch h

theorem writes_save_le (before after : Text) :
    writes file (save file before after fs).events ≤ 1 := by
  unfold save
  split
  · exact Nat.zero_le 1
  · -- whether the write is refused or not, nothing else is logged
    rw [Logged.events_bind]
    split
    · exact List.count_le_length
    · exact List.count_le_length

/-- **When the first round skips no fix it is the only one**, and the file is
written at most once. -/
theorem lintFix_of_not_skipped (hc : c ∈ builtin) (hread : fs.read file = .ok text)
    (h : ∀ found, (c.checkText parser plan file text).value = .ok found →
      (Fixing.apply (Fixing.fixesOf found) text).skipped = false) :
    writes file (c.lintFix parser plan file fs).events ≤ 1 ∧
      ∀ found, (c.checkText parser plan file text).value = .ok found →
        (c.lintFix parser plan file fs).value.files =
          saved file text (Fixing.apply (Fixing.fixesOf found) text).text fs := by
  have hrounds : c.lintFix parser plan file fs = c.fixRounds parser plan file (9 + 1) fs := rfl
  constructor
  · rw [hrounds, fixRounds_next, hread]
    simp only [Logged.events_bind, writes_append, writes_checkText hc, Nat.zero_add]
    cases hfound : (c.checkText parser plan file text).value with
    | error e => exact Nat.zero_le 1
    | ok found =>
      have hskipped : (Fixing.applyLogged (Fixing.fixesOf found) text).value.skipped = false :=
        h found hfound
      simp only [Logged.events_bind, writes_append, writes_applyLogged, Nat.zero_add]
      -- behind the write nothing more is written
      refine Nat.add_le_add (writes_save_le _ _) (Nat.le_zero.2 ?_)
      split
      · rfl
      · simp only [hskipped, Bool.false_eq_true, if_false, Logged.events_bind, writes_append,
          writes_lintOnly hc, Logged.events_pure, writes_nil]
  · intro found hfound
    have hround : c.Round parser plan file text (Fixing.apply (Fixing.fixesOf found) text) :=
      ⟨found, hfound, rfl⟩
    cases hrefused : refused file text (Fixing.apply (Fixing.fixesOf found) text).text fs with
    | some e =>
      rw [hrounds, fixRounds_of_refused hread hround hrefused,
        saved_of_refusal (refusal_of_refused hrefused)]
    | none =>
      rw [hrounds, fixRounds_succ hread hround hrefused, if_neg (by simp [h found hfound])]

/-- When no fixes of a text overlap none is skipped, and the first round is the only
one. -/
theorem lintFix_of_apart (hc : c ∈ builtin) {found : List Diagnostic}
    (hfound : (c.checkText parser plan file text).value = .ok found)
    (hvalid : ∀ f ∈ Fixing.fixesOf found, Fixing.isValid text f = true)
    (hapart : (Fixing.fixesOf found).Pairwise Fix.Apart) :
    (Fixing.apply (Fixing.fixesOf found) text).skipped = false ∧
      ∀ fs : Files, fs.read file = .ok text →
        writes file (c.lintFix parser plan file fs).events ≤ 1 ∧
          (c.lintFix parser plan file fs).value.files =
            saved file text (Fixing.apply (Fixing.fixesOf found) text).text fs := by
  have hskipped : (Fixing.apply (Fixing.fixesOf found) text).skipped = false := by
    rw [Fixing.apply_of_apart hvalid hapart]
  refine ⟨hskipped, fun fs hread => ?_⟩
  have hevery : ∀ other, (c.checkText parser plan file text).value = .ok other →
      (Fixing.apply (Fixing.fixesOf other) text).skipped = false := by
    intro other hother
    rw [hfound] at hother
    rwa [← Except.ok.inj hother]
  obtain ⟨hwrites, hfiles⟩ := lintFix_of_not_skipped hc hread hevery
  exact ⟨hwrites, hfiles found hfound⟩

end Checker
end WebLint
