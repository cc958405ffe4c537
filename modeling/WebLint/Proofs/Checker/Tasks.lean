import WebLint.Checker.Pool
import WebLint.Proofs.Checker.Run

/-!
# A checker at work on a file

A checker works on a file in steps: it begins, and then it reads the file, checks
the text it has read, and writes a repaired text back, as often as there are
rounds of fixes.  Between two of its steps others may be at work.  A step changes
nothing that the checker would arrive at if it were left alone from then on; and
what it would arrive at depends on the text of its own file only.

What is proved here:

* `advances` — what a step can do;
* `Advances.alone` — a step leaves what the checker arrives at as it is;
* `Advances.keeps` — a step changes the contents of the file only;
* `alone_congr` — what the checker arrives at depends on the text of the file;
* `Advances.turns` — the checker is done after a bounded number of steps.
-/

namespace WebLint
namespace Checker

variable {c : Checker} {parser : Parser} {plan : Plan} {file : Path} {fs gs : Files}
variable {stage next : Stage}

/-! ## Steps -/

/-- What a step of a checker at work on a file can do: the stage before it, and the files and
the stage after it. -/
inductive Advances (c : Checker) (parser : Parser) (plan : Plan) (file : Path) (fs : Files) :
    Stage → Files → Stage → Prop
  | begin : Advances c parser plan file fs .waiting fs (.reading (roundsOf plan))
  | unreadable {rounds : Nat} {e : FileError} :
    fs.read file = .error e →
      Advances c parser plan file fs (.reading rounds) fs
        (.finished (.error (.unreadable file e)))
  | read {rounds : Nat} {text : Text} :
    fs.read file = .ok text →
      Advances c parser plan file fs (.reading rounds) fs (.checking rounds text)
  | check {text : Text} :
    Advances c parser plan file fs (.checking 0 text) fs
      (.finished (c.checkText parser plan file text).value)
  | fail {rounds : Nat} {text : Text} {e : Failure} :
    (c.checkText parser plan file text).value = .error e →
      Advances c parser plan file fs (.checking (rounds + 1) text) fs (.finished (.error e))
  | repair {rounds : Nat} {text : Text} {found : List Diagnostic} :
    (c.checkText parser plan file text).value = .ok found →
      Advances c parser plan file fs (.checking (rounds + 1) text) fs
        (.saving rounds text (Fixing.apply (Fixing.fixesOf found) text))
  | refuse {rounds : Nat} {before : Text} {made : Fixing.Result} {e : FileError} :
    refused file before made.text fs = some e →
      Advances c parser plan file fs (.saving rounds before made) fs
        (.finished (.error (.unwritable file e)))
  | save {rounds : Nat} {before : Text} {made : Fixing.Result} :
    refused file before made.text fs = none →
      Advances c parser plan file fs (.saving rounds before made)
        (saved file before made.text fs) (.reading (if made.skipped then rounds else 0))
  | stay {result : Except Failure (List Diagnostic)} :
    Advances c parser plan file fs (.finished result) fs (.finished result)

theorem advances (c : Checker) (parser : Parser) (plan : Plan) (file : Path) (fs : Files)
    (stage : Stage) :
    c.Advances parser plan file fs stage (c.advance parser plan file fs stage).value.1
      (c.advance parser plan file fs stage).value.2 := by
  cases stage with
  | waiting => exact .begin
  | reading rounds =>
    rw [advance, Logged.value_pure, readStep]
    cases hread : fs.read file with
    | error e => exact .unreadable hread
    | ok text => exact .read hread
  | checking rounds text =>
    rw [advance, Logged.value_bind, Logged.value_pure]
    cases rounds with
    | zero => exact .check
    | succ rounds =>
      rw [checkStep, Logged.value_bind]
      cases hcheck : (c.checkText parser plan file text).value with
      | error e => exact .fail hcheck
      | ok found => exact .repair hcheck
  | saving rounds before made =>
    rw [advance, saveStep, Logged.value_bind, value_save]
    cases hrefused : refused file before made.text fs with
    | some e => exact .refuse hrefused
    | none => exact .save hrefused
  | finished result => exact .stay

/-- What a checker arrives at from some stage when it is left alone. -/
def alone (c : Checker) (parser : Parser) (plan : Plan) (file : Path) (fs : Files) :
    Stage → Outcome (List Diagnostic)
  | .waiting => (c.lintFile parser plan file fs).value
  | .reading rounds => (c.fixRounds parser plan file rounds fs).value
  | .checking rounds _ => (c.fixRounds parser plan file rounds fs).value
  | .saving rounds before made =>
    match refused file before made.text fs with
    | some e => ⟨fs, .error (.unwritable file e)⟩
    | none =>
      (c.fixRounds parser plan file (if made.skipped then rounds else 0)
        (saved file before made.text fs)).value
  | .finished result => ⟨fs, result⟩

/-- Whether the text a checker has read is still in the file. -/
def Stage.Holds (fs : Files) (file : Path) : Stage → Prop
  | .checking _ text => fs.read file = .ok text
  | .saving _ before _ => fs.read file = .ok before
  | _ => True

/-! ## What a step leaves as it is -/

/-- A file is checked, or repaired, in as many rounds of fixes as it may take. -/
theorem value_lintFile_eq (c : Checker) (parser : Parser) (plan : Plan) (file : Path)
    (fs : Files) : (c.lintFile parser plan file fs).value =
      (c.fixRounds parser plan file (roundsOf plan) fs).value := by
  rw [lintFile, roundsOf]
  split
  · rfl
  · rfl

/-- A round that has been made and not yet saved. -/
theorem alone_saving {text : Text} {made : Fixing.Result} (h : fs.read file = .ok text)
    (hround : c.Round parser plan file text made) (rounds : Nat) :
    c.alone parser plan file fs (.saving rounds text made) =
      (c.fixRounds parser plan file (rounds + 1) fs).value := by
  rw [alone]
  cases hrefused : refused file text made.text fs with
  | some e => exact (fixRounds_of_refused h hround hrefused).symm
  | none =>
    rw [fixRounds_succ h hround hrefused]
    simp only
    split
    · rfl
    · exact value_fixRounds_zero (saved_read h hrefused)

/-- **A step leaves what the checker arrives at as it is.** -/
theorem Advances.alone (h : c.Advances parser plan file fs stage gs next)
    (hholds : stage.Holds fs file) :
    c.alone parser plan file gs next = c.alone parser plan file fs stage := by
  cases h with
  | begin => exact (value_lintFile_eq c parser plan file fs).symm
  | unreadable hread => exact (value_fixRounds_of_error hread _).symm
  | read _ => rfl
  | check => exact (value_fixRounds_zero hholds).symm
  | fail hcheck => exact (value_fixRounds_of_checkText hholds hcheck _).symm
  | repair hcheck => exact alone_saving hholds ⟨_, hcheck, rfl⟩ _
  | refuse hrefused => simp only [Checker.alone, hrefused]
  | save hrefused => simp only [Checker.alone, hrefused]
  | stay => rfl

/-- What is read is in the file. -/
theorem Advances.holds (h : c.Advances parser plan file fs stage gs next)
    (hholds : stage.Holds fs file) : next.Holds gs file := by
  cases h with
  | read hread => exact hread
  | repair _ => exact hholds
  | _ => trivial

/-- A step changes the contents of the file only. -/
theorem Advances.keeps (h : c.Advances parser plan file fs stage gs next)
    (hholds : stage.Holds fs file) : Files.Keeps (Apart fs file) fs gs := by
  cases h with
  | save _ => exact keeps_saved hholds _
  | _ => exact .refl _ _

/-! ## The text of the file -/

/-- Whether a file holds the same text in two states of the files, and may be written in
both or in none. -/
structure SameText (file : Path) (fs gs : Files) : Prop where
  /-- The same is read. -/
  read : gs.read file = fs.read file
  /-- The same comes of a write. -/
  refusal : gs.refusal file = fs.refusal file

/-- Whether two outcomes have the same result, and leave the same text in a
file. -/
def SameFor (file : Path) (o o' : Outcome (List Diagnostic)) : Prop :=
  o.result = o'.result ∧ o.files.read file = o'.files.read file

theorem SameFor.trans {o o' o'' : Outcome (List Diagnostic)} (h₁ : SameFor file o o')
    (h₂ : SameFor file o' o'') : SameFor file o o'' :=
  ⟨h₁.1.trans h₂.1, h₁.2.trans h₂.2⟩

/-- A file that keeps its text has the same text. -/
theorem sameText_of_keeps {kept : List String → Prop} (h : Files.Keeps kept fs gs)
    (hfile : ∀ names, fs.resolve file = .ok names → kept names) : SameText file fs gs :=
  ⟨h.read hfile, Files.refusal_congr h.toAlike file⟩

theorem SameText.refused {before after : Text} (h : SameText file fs gs) :
    refused file before after gs = refused file before after fs := by
  unfold Checker.refused
  rw [h.refusal]

/-- A file with the same text has the same text once a new one is saved. -/
theorem SameText.saved {before after : Text} (h : SameText file fs gs)
    (hread : fs.read file = .ok before) (hrefused : Checker.refused file before after fs = none) :
    SameText file (saved file before after fs) (saved file before after gs) where
  read := by
    rw [saved_read (h.read.trans hread) (h.refused.trans hrefused), saved_read hread hrefused]
  refusal := by
    rw [Files.refusal_congr (keeps_saved (h.read.trans hread) after).toAlike,
      Files.refusal_congr (keeps_saved hread after).toAlike, h.refusal]

/-- What a checker that repairs a file arrives at depends on the text of the
file. -/
theorem fixRounds_congr (h : SameText file fs gs) (rounds : Nat) :
    SameFor file (c.fixRounds parser plan file rounds gs).value
      (c.fixRounds parser plan file rounds fs).value := by
  induction rounds generalizing gs fs with
  | zero => exact ⟨congrArg Logged.value (lintOnly_congr h.read), h.read⟩
  | succ rounds ih =>
    cases hread : fs.read file with
    | error e =>
      rw [value_fixRounds_of_error hread, value_fixRounds_of_error (h.read.trans hread)]
      exact ⟨rfl, h.read⟩
    | ok text =>
      have hread' := h.read.trans hread
      cases hcheck : (c.checkText parser plan file text).value with
      | error e =>
        rw [value_fixRounds_of_checkText hread hcheck, value_fixRounds_of_checkText hread' hcheck]
        exact ⟨rfl, h.read⟩
      | ok found =>
        have hround : c.Round parser plan file text (Fixing.apply (Fixing.fixesOf found) text) :=
          ⟨found, hcheck, rfl⟩
        cases hrefused : refused file text (Fixing.apply (Fixing.fixesOf found) text).text fs with
        | some e =>
          rw [fixRounds_of_refused hread hround hrefused,
            fixRounds_of_refused hread' hround (h.refused.trans hrefused)]
          exact ⟨rfl, h.read⟩
        | none =>
          rw [fixRounds_succ hread hround hrefused,
            fixRounds_succ hread' hround (h.refused.trans hrefused)]
          have hsaved := h.saved hread hrefused
          split
          · exact ih hsaved
          · exact ⟨rfl, hsaved.read⟩

theorem lintFile_congr (h : SameText file fs gs) :
    SameFor file (c.lintFile parser plan file gs).value (c.lintFile parser plan file fs).value := by
  rw [value_lintFile_eq, value_lintFile_eq]
  exact fixRounds_congr h _

/-- What a checker arrives at depends on the text of the file, as long as it is
the text it has read. -/
theorem alone_congr (h : SameText file fs gs) (hholds : stage.Holds fs file) :
    SameFor file (c.alone parser plan file gs stage) (c.alone parser plan file fs stage) := by
  cases stage with
  | waiting => exact lintFile_congr h
  | reading rounds => exact fixRounds_congr h rounds
  | checking rounds text => exact fixRounds_congr h rounds
  | saving rounds before made =>
    rw [alone, alone, h.refused]
    cases hrefused : refused file before made.text fs with
    | some e => exact ⟨rfl, h.read⟩
    | none => exact fixRounds_congr (h.saved hholds hrefused) _
  | finished result => exact ⟨rfl, h.read⟩

/-- The text a checker has read is still there when the file has the same text. -/
theorem holds_congr (h : gs.read file = fs.read file) (hholds : stage.Holds fs file) :
    stage.Holds gs file := by
  cases stage with
  | checking rounds text => exact h.trans hholds
  | saving rounds before made => exact h.trans hholds
  | _ => trivial

/-! ## Checkers that repair nothing -/

/-- Whether no round of fixes is left, or at hand. -/
def Stage.Plain : Stage → Prop
  | .reading rounds => rounds = 0
  | .checking rounds _ => rounds = 0
  | .saving .. => False
  | _ => True

/-- Without rounds of fixes no file changes. -/
theorem Advances.plain (h : c.Advances parser plan file fs stage gs next)
    (hfix : plan.fix = false) (hplain : stage.Plain) : next.Plain ∧ gs = fs := by
  cases h with
  | begin =>
    refine ⟨?_, rfl⟩
    show roundsOf plan = 0
    rw [roundsOf, hfix]
    rfl
  | read _ => exact ⟨hplain, rfl⟩
  | fail _ => exact absurd hplain (Nat.succ_ne_zero _)
  | repair _ => exact absurd hplain (Nat.succ_ne_zero _)
  | save _ => exact hplain.elim
  | _ => exact ⟨trivial, rfl⟩

/-! ## The number of steps -/

/-- How many steps are left at most. -/
def Stage.turns : Stage → Nat
  | .waiting => maxTurns
  | .reading rounds => 3 * rounds + 2
  | .checking rounds _ => 3 * rounds + 1
  | .saving rounds _ _ => 3 * rounds + 3
  | .finished _ => 0

/-- Every step is one of those that were left. -/
theorem Advances.turns (h : c.Advances parser plan file fs stage gs next) :
    next.turns ≤ stage.turns - 1 := by
  cases h with
  | begin =>
    show 3 * roundsOf plan + 2 ≤ maxTurns - 1
    unfold roundsOf maxTurns
    split
    · omega
    · omega
  | read _ => exact Nat.le_refl _
  | @repair rounds text found _ =>
    show 3 * rounds + 3 ≤ 3 * (rounds + 1) + 1 - 1
    omega
  | @save rounds before made _ =>
    show 3 * (if made.skipped then rounds else 0) + 2 ≤ 3 * rounds + 3 - 1
    split
    · omega
    · omega
  | _ => exact Nat.zero_le _

theorem exists_finished (h : stage.turns = 0) : ∃ result, stage = .finished result := by
  cases stage with
  | finished result => exact ⟨result, rfl⟩
  | _ => simp [Stage.turns, maxTurns] at h

end Checker
end WebLint
