import WebLint.Proofs.Checker
import WebLint.Proofs.Files
import WebLint.Proofs.Text.Cut

/-!
# Rounds of fixes

A file is repaired in rounds: what is found in it is repaired, and as long as a
fix has been skipped there is another round.  However many rounds there are,
what is found in the end is what a mere check finds in the text that is left.

What is proved here:

* `value_save`, `saved_read`, `keeps_saved` — a round changes the contents of its file
  only, and these unless they may not be written;
* `fixRounds_eq_ok` — what is found in the end is found in the text that is
  left;
* `fixRounds_of_rounds` — rounds that end before their limit decide which text
  that is;
* `lintFix_of_no_fixes` — a file in which nothing can be repaired stays as it is.
-/

namespace WebLint
namespace Checker

variable {c : Checker} {parser : Parser} {plan : Plan} {file : Path} {fs : Files}

/-! ## One round -/

/-- The files once a new text of a file is saved. -/
def saved (file : Path) (before after : Text) (fs : Files) : Files :=
  if after = before then fs else fs.write file after

/-- Why a new text of a file cannot be saved, if it cannot. -/
def refused (file : Path) (before after : Text) (fs : Files) : Option FileError :=
  if after = before then none else fs.refusal file

theorem value_save (before after : Text) :
    (save file before after fs).value =
      match refused file before after fs with
      | some e => .error (.unwritable file e)
      | none => .ok (saved file before after fs) := by
  unfold save refused saved
  split
  · rfl
  · rw [Logged.value_bind]
    cases fs.refusal file with
    | some e => rfl
    | none => rfl

/-- A new text of a file that can be written is saved. -/
theorem refused_eq_none (h : fs.refusal file = none) (before after : Text) :
    refused file before after fs = none := by
  unfold refused
  split
  · rfl
  · exact h

/-- Only where nothing can be written a text is not saved. -/
theorem refusal_of_refused {before after : Text} {e : FileError}
    (h : refused file before after fs = some e) : fs.refusal file = some e := by
  unfold refused at h
  split at h
  · cases h
  · exact h

/-- Where nothing can be written, nothing is saved. -/
theorem saved_of_refusal {before : Text} {e : FileError} (h : fs.refusal file = some e)
    (after : Text) : saved file before after fs = fs := by
  unfold saved
  split
  · rfl
  · exact Files.write_of_refusal h after

/-- What is saved is what is read afterwards. -/
theorem saved_read {before after : Text} (h : fs.read file = .ok before)
    (hrefused : refused file before after fs = none) :
    (saved file before after fs).read file = .ok after := by
  unfold refused at hrefused
  unfold saved
  split
  · rename_i heq
    rw [heq]
    exact h
  · rename_i hne
    rw [if_neg hne] at hrefused
    exact Files.read_write_self h hrefused after

/-- The files that a path does not lead to. -/
abbrev Apart (fs : Files) (file : Path) (names : List String) : Prop :=
  fs.resolve file ≠ .ok names

/-- Saving a file changes no other one. -/
theorem keeps_saved {before : Text} (h : fs.read file = .ok before) (after : Text) :
    Files.Keeps (Apart fs file) fs (saved file before after fs) := by
  unfold saved
  split
  · exact .refl _ _
  · exact Files.keeps_write h after

theorem value_lintOnly {text : Text} (h : fs.read file = .ok text) :
    (c.lintOnly parser plan file fs).value = (c.checkText parser plan file text).value := by
  rw [lintOnly, h]

/-- A file is checked successfully when it can be read and its text is. -/
theorem lintOnly_eq_ok {found : List Diagnostic}
    (h : (c.lintOnly parser plan file fs).value = .ok found) :
    ∃ text, fs.read file = .ok text ∧ (c.checkText parser plan file text).value = .ok found := by
  cases hread : fs.read file with
  | error e =>
    rw [lintOnly, hread] at h
    cases h
  | ok text =>
    rw [value_lintOnly hread] at h
    exact ⟨text, rfl, h⟩

/-! ## One round -/

theorem fixRounds_zero (fs : Files) :
    c.fixRounds parser plan file 0 fs = do return ⟨fs, ← c.lintOnly parser plan file fs⟩ := by rfl

/-- A repair that may still take a round. -/
theorem fixRounds_next (rounds : Nat) (fs : Files) :
    c.fixRounds parser plan file (rounds + 1) fs =
      match fs.read file with
      | .error e => pure ⟨fs, .error (.unreadable file e)⟩
      | .ok text => do
        match ← c.checkText parser plan file text with
        | .error e => pure ⟨fs, .error e⟩
        | .ok found =>
          let fixed ← Fixing.applyLogged (Fixing.fixesOf found) text
          match ← save file text fixed.text fs with
          | .error e => pure ⟨fs, .error e⟩
          | .ok fs =>
            if fixed.skipped then c.fixRounds parser plan file rounds fs
            else return ⟨fs, ← c.lintOnly parser plan file fs⟩ := by rfl

theorem value_fixRounds_zero {text : Text} (h : fs.read file = .ok text) :
    (c.fixRounds parser plan file 0 fs).value =
      ⟨fs, (c.checkText parser plan file text).value⟩ := by
  rw [fixRounds_zero, Logged.value_bind, value_lintOnly h]
  rfl

/-- A file that cannot be read fails at once. -/
theorem value_fixRounds_of_error {e : FileError} (h : fs.read file = .error e) (rounds : Nat) :
    (c.fixRounds parser plan file rounds fs).value = ⟨fs, .error (.unreadable file e)⟩ := by
  cases rounds with
  | zero =>
    rw [fixRounds_zero, lintOnly, h]
    rfl
  | succ rounds =>
    rw [fixRounds_next, h]
    rfl

/-- A text that cannot be checked fails at once. -/
theorem value_fixRounds_of_checkText {text : Text} {e : Failure} (h : fs.read file = .ok text)
    (hcheck : (c.checkText parser plan file text).value = .error e) (rounds : Nat) :
    (c.fixRounds parser plan file (rounds + 1) fs).value = ⟨fs, .error e⟩ := by
  rw [fixRounds_next, h]
  simp only [Logged.value_bind, hcheck]
  rfl

/-- What a round of fixes makes of a text, and whether it skips some. -/
def Round (c : Checker) (parser : Parser) (plan : Plan) (file : Path) (text : Text)
    (made : Fixing.Result) : Prop :=
  ∃ found, (c.checkText parser plan file text).value = .ok found ∧
    Fixing.apply (Fixing.fixesOf found) text = made

/-- A round that makes a single fix. -/
theorem round_of_single {text : Text} {made : Fixing.Result} {d : Diagnostic} {fix : Fix}
    (hfound : (c.checkText parser plan file text).value = .ok [d]) (hfix : d.fix = some fix)
    (hmade : Fixing.splice text 0 ([fix].filter (Fixing.isValid text)) = made) :
    c.Round parser plan file text made := by
  have hfixes : Fixing.fixesOf [d] = [fix] := by
    rw [Fixing.fixesOf, List.filterMap_cons_some hfix, List.filterMap_nil]
  refine ⟨[d], hfound, ?_⟩
  rw [hfixes, Fixing.apply, Fixing.sort, List.mergeSort_singleton]
  exact hmade

/-- A round whose text cannot be saved ends the repair. -/
theorem fixRounds_of_refused {rounds : Nat} {text : Text} {made : Fixing.Result} {e : FileError}
    (hread : fs.read file = .ok text) (hround : c.Round parser plan file text made)
    (hrefused : refused file text made.text fs = some e) :
    (c.fixRounds parser plan file (rounds + 1) fs).value =
      ⟨fs, .error (.unwritable file e)⟩ := by
  obtain ⟨found, hfound, rfl⟩ := hround
  rw [fixRounds_next, hread]
  have hmade : (Fixing.applyLogged (Fixing.fixesOf found) text).value =
      Fixing.apply (Fixing.fixesOf found) text := rfl
  simp only [Logged.value_bind, hfound, hmade, value_save, hrefused, Logged.value_pure]

/-- A round whose text is saved ends the repair, unless it skips a fix. -/
theorem fixRounds_succ {rounds : Nat} {text : Text} {made : Fixing.Result}
    (hread : fs.read file = .ok text) (hround : c.Round parser plan file text made)
    (hrefused : refused file text made.text fs = none) :
    (c.fixRounds parser plan file (rounds + 1) fs).value =
      if made.skipped then
        (c.fixRounds parser plan file rounds (saved file text made.text fs)).value
      else
        ⟨saved file text made.text fs, (c.checkText parser plan file made.text).value⟩ := by
  obtain ⟨found, hfound, rfl⟩ := hround
  rw [fixRounds_next, hread]
  have hmade : (Fixing.applyLogged (Fixing.fixesOf found) text).value =
      Fixing.apply (Fixing.fixesOf found) text := rfl
  simp only [Logged.value_bind, hfound, hmade, value_save, hrefused]
  split
  · rfl
  · rw [Logged.value_bind, Logged.value_pure, value_lintOnly (saved_read hread hrefused)]

/-! ## All rounds -/

/-- **What is found after the last round is found in the text that is left**,
and no other file has changed. -/
theorem fixRounds_eq_ok {rounds : Nat} {found : List Diagnostic}
    (h : (c.fixRounds parser plan file rounds fs).value.result = .ok found) :
    ∃ text, (c.fixRounds parser plan file rounds fs).value.files.read file = .ok text ∧
      (c.checkText parser plan file text).value = .ok found ∧
      Files.Keeps (Apart fs file) fs (c.fixRounds parser plan file rounds fs).value.files := by
  induction rounds generalizing fs with
  | zero =>
    obtain ⟨text, hread, hfound⟩ := lintOnly_eq_ok h
    exact ⟨text, hread, hfound, .refl _ _⟩
  | succ rounds ih =>
    cases hread : fs.read file with
    | error e =>
      rw [value_fixRounds_of_error hread] at h
      cases h
    | ok text =>
      cases hcheck : (c.checkText parser plan file text).value with
      | error e =>
        rw [value_fixRounds_of_checkText hread hcheck] at h
        cases h
      | ok first =>
        have hround : c.Round parser plan file text
            (Fixing.apply (Fixing.fixesOf first) text) := ⟨first, hcheck, rfl⟩
        have hkeeps := keeps_saved hread (Fixing.apply (Fixing.fixesOf first) text).text
        cases hrefused : refused file text (Fixing.apply (Fixing.fixesOf first) text).text fs with
        | some e =>
          rw [fixRounds_of_refused hread hround hrefused] at h
          cases h
        | none =>
          rw [fixRounds_succ hread hround hrefused] at h ⊢
          split
          · rename_i hskipped
            rw [if_pos hskipped] at h
            obtain ⟨last, hlast, hfound, hrest⟩ := ih h
            refine ⟨last, hlast, hfound, hkeeps.trans ?_⟩
            exact ⟨hrest.toAlike, fun names hnames =>
              hrest.file names (by rwa [Apart, Files.resolve_congr hkeeps.toAlike])⟩
          · rename_i hskipped
            rw [if_neg hskipped] at h
            exact ⟨_, saved_read hread hrefused, h, hkeeps⟩

/-- What is found in a repaired file is found in the text that is left. -/
theorem lintFix_eq_ok {found : List Diagnostic}
    (h : (c.lintFix parser plan file fs).value.result = .ok found) :
    ∃ text, (c.lintFix parser plan file fs).value.files.read file = .ok text ∧
      (c.checkText parser plan file text).value = .ok found ∧
      Files.Keeps (Apart fs file) fs (c.lintFix parser plan file fs).value.files :=
  fixRounds_eq_ok h

/-- Rounds of fixes, each of which but the last skips some fix: how often there
has been another round, the text before and the text after. -/
inductive Rounds (c : Checker) (parser : Parser) (plan : Plan) (file : Path) :
    Nat → Text → Text → Prop
  | last {text made : Text} :
    c.Round parser plan file text ⟨false, made⟩ → Rounds c parser plan file 0 text made
  | another {n : Nat} {text made left : Text} :
    c.Round parser plan file text ⟨true, made⟩ → Rounds c parser plan file n made left →
      Rounds c parser plan file (n + 1) text left

/-- In a file that can be written, rounds that end before their limit decide which text
is left. -/
theorem fixRounds_of_rounds {n rounds : Nat} {text left : Text}
    (h : c.Rounds parser plan file n text left) (hn : n < rounds)
    (hread : fs.read file = .ok text) (hwritable : fs.refusal file = none) :
    (c.fixRounds parser plan file rounds fs).value.result =
        (c.checkText parser plan file left).value ∧
      (c.fixRounds parser plan file rounds fs).value.files.read file = .ok left := by
  induction h generalizing fs rounds with
  | @last text made hround =>
    obtain ⟨rounds, rfl⟩ : ∃ k, rounds = k + 1 := ⟨rounds - 1, by omega⟩
    have hrefused := refused_eq_none hwritable text made
    rw [fixRounds_succ hread hround hrefused]
    exact ⟨rfl, saved_read hread hrefused⟩
  | @another n text made left hround _ ih =>
    obtain ⟨rounds, rfl⟩ : ∃ k, rounds = k + 1 := ⟨rounds - 1, by omega⟩
    have hrefused := refused_eq_none hwritable text made
    rw [fixRounds_succ hread hround hrefused]
    refine ih (by omega) (saved_read hread hrefused) ?_
    rw [Files.refusal_congr (keeps_saved hread _).toAlike, hwritable]

theorem lintFix_of_rounds {n : Nat} {text left : Text}
    (h : c.Rounds parser plan file n text left) (hn : n < maxRounds)
    (hread : fs.read file = .ok text) (hwritable : fs.refusal file = none) :
    (c.lintFix parser plan file fs).value.result = (c.checkText parser plan file left).value ∧
      (c.lintFix parser plan file fs).value.files.read file = .ok left :=
  fixRounds_of_rounds h hn hread hwritable

/-- A file in which nothing can be repaired stays as it is. -/
theorem lintFix_of_no_fixes {text : Text} {found : List Diagnostic}
    (hread : fs.read file = .ok text)
    (hfound : (c.checkText parser plan file text).value = .ok found)
    (hnone : ∀ d ∈ found, d.fix = none) :
    (c.lintFix parser plan file fs).value = ⟨fs, .ok found⟩ := by
  have hfixes : Fixing.fixesOf found = [] := List.filterMap_eq_nil_iff.2 hnone
  have happly : Fixing.apply [] text = ⟨false, text⟩ := by
    rw [Fixing.apply, Fixing.sort, List.mergeSort_nil, List.filter_nil, Fixing.splice,
      Text.dropBytes_zero]
  have hround : c.Round parser plan file text ⟨false, text⟩ :=
    ⟨found, hfound, by rw [hfixes, happly]⟩
  have hsaved : saved file text text fs = fs := if_pos rfl
  calc (c.fixRounds parser plan file (9 + 1) fs).value
    _ = ⟨saved file text text fs, (c.checkText parser plan file text).value⟩ :=
      fixRounds_succ hread hround (if_pos rfl)
    _ = ⟨fs, .ok found⟩ := by rw [hsaved, hfound]

end Checker
end WebLint
