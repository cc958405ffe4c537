import WebLint.Proofs.Checker.History
import WebLint.Proofs.Checker.Idempotence
import WebLint.Proofs.Checker.Tasks

/-!
# Repairs that fail

A repair writes what a round of fixes makes of a text before it looks whether the new text can
be checked.  When it cannot, the repair fails, and the new text stays.  So the file is only
left alone by a repair that fails when it may not be written, or when its fixes have not been
asked for yet: when a mere check of the file fails too.

What is proved here:

* `exists_failing_turn` — a repair of a text fails because it may not be written, or in the
  first round whose text cannot be checked, and then leaves this text behind;
* `lintFix_leaves_iff` — a repair that fails leaves the file as it was exactly when a check of
  the file fails, or when the file may not be written;
* `lintFix_elementText` — which it need not.
-/

namespace WebLint
namespace Checker

variable {c : Checker} {parser : Parser} {plan : Plan} {file : Path} {fs : Files}

/-! ## The round that fails -/

/-- Whether a repair fails with `e` in the round with number `i`, from 0, and leaves the files
`left`: the texts of the rounds before can be checked, its own cannot, and it stays. -/
structure FailsIn (c : Checker) (parser : Parser) (plan : Plan) (file : Path) (first : Turn)
    (e : Failure) (left : Files) (i : Nat) : Prop where
  /-- The texts of the rounds before can be checked. -/
  checked : ∀ j < i, ∃ found,
    (c.checkText parser plan file (c.turn parser plan file first j).text).value = .ok found
  /-- The file holds the text of the round. -/
  reads : (c.turn parser plan file first i).files.read file =
    .ok (c.turn parser plan file first i).text
  /-- This text cannot. -/
  fails : (c.checkText parser plan file (c.turn parser plan file first i).text).value = .error e
  /-- The files stay as they are before the round. -/
  left : left = (c.turn parser plan file first i).files

section

variable {first : Turn} {e : Failure} {left : Files} {i : Nat}

/-- A text that cannot be checked fails at once. -/
theorem failsIn_zero (hread : first.files.read file = .ok first.text)
    (h : (c.checkText parser plan file first.text).value = .error e) :
    c.FailsIn parser plan file first e first.files 0 :=
  ⟨fun j hj => absurd hj (Nat.not_lt_zero j), hread, h, rfl⟩

/-- A round, and a repair behind it that fails. -/
theorem FailsIn.succ {found : List Diagnostic}
    (hfound : (c.checkText parser plan file first.text).value = .ok found)
    (h : c.FailsIn parser plan file (c.nextTurn parser plan file first) e left i) :
    c.FailsIn parser plan file first e left (i + 1) := by
  refine ⟨fun j hj => ?_, h.reads, h.fails, h.left⟩
  cases j with
  | zero => exact ⟨found, hfound⟩
  | succ j => exact h.checked j (Nat.lt_of_succ_lt_succ hj)

end

/-- Whether a repair fails with `e` because the file may not be written, and leaves the files
as they are. -/
structure IsDenied (file : Path) (fs : Files) (e : Failure) (left : Files) : Prop where
  /-- The file may not be written, and this is what the failure says. -/
  refusal : ∃ err, fs.refusal file = some err ∧ e = .unwritable file err
  /-- The files are left as they are. -/
  left : left = fs

/-- A repair of a text fails because the file may not be written, or in the first round whose
text cannot be checked. -/
theorem exists_failing_turn {limit : Nat} {first : Turn} {e : Failure}
    (hread : first.files.read file = .ok first.text)
    (h : (c.fixRounds parser plan file limit first.files).value.result = .error e) :
    IsDenied file first.files e (c.fixRounds parser plan file limit first.files).value.files ∨
      ∃ i ≤ limit, c.FailsIn parser plan file first e
        (c.fixRounds parser plan file limit first.files).value.files i := by
  induction limit generalizing first with
  | zero =>
    rw [value_fixRounds_zero hread] at h ⊢
    exact Or.inr ⟨0, Nat.le_refl 0, failsIn_zero hread h⟩
  | succ limit ih =>
    cases hfound : (c.checkText parser plan file first.text).value with
    | error e' =>
      rw [value_fixRounds_of_checkText hread hfound] at h ⊢
      obtain rfl := Except.error.inj h
      exact Or.inr ⟨0, Nat.zero_le _, failsIn_zero hread hfound⟩
    | ok found =>
      cases hgoes : c.halted parser plan file first with
      | some err =>
        rw [fixRounds_of_refused hread (round_mended hfound) hgoes] at h ⊢
        exact Or.inl ⟨⟨err, refusal_of_refused hgoes, (Except.error.inj h).symm⟩, rfl⟩
      | none =>
        have hnext := read_nextTurn hread hgoes
        obtain ⟨hvalue, -⟩ := fixRounds_eq_succ limit hread hfound hgoes
        rw [hvalue] at h ⊢
        by_cases hskipped : (c.mended parser plan file first.text).skipped = true
        · rw [if_pos hskipped] at h ⊢
          rcases ih hnext h with hdenied | ⟨i, hi, hrest⟩
          · -- if the file may not be written now it might not before, and nothing has been
            obtain ⟨err, herr, he⟩ := hdenied.refusal
            have hrefusal : first.files.refusal file = some err := by
              rw [← herr]
              exact (Files.refusal_congr (keeps_saved hread _).toAlike file).symm
            exact Or.inl ⟨⟨err, hrefusal, he⟩,
              hdenied.left.trans (saved_of_refusal hrefusal _)⟩
          · exact Or.inr ⟨i + 1, Nat.succ_le_succ hi, hrest.succ hfound⟩
        · rw [if_neg hskipped] at h ⊢
          rw [value_fixRounds_zero hnext] at h ⊢
          exact Or.inr ⟨1, Nat.succ_le_succ (Nat.zero_le limit),
            (failsIn_zero hnext h).succ hfound⟩

/-! ## Files that are left alone -/

/-- A repair leaves the files as they are when its file may not be written. -/
theorem files_fixRounds_of_refusal {err : FileError} (h : fs.refusal file = some err)
    (rounds : Nat) : (c.fixRounds parser plan file rounds fs).value.files = fs := by
  induction rounds with
  | zero => rfl
  | succ rounds ih =>
    cases hread : fs.read file with
    | error e => rw [value_fixRounds_of_error hread]
    | ok text =>
      cases hfound : (c.checkText parser plan file text).value with
      | error e => rw [value_fixRounds_of_checkText hread hfound]
      | ok found =>
        have hround : c.Round parser plan file text (Fixing.apply (Fixing.fixesOf found) text) :=
          ⟨found, hfound, rfl⟩
        cases hrefused : refused file text (Fixing.apply (Fixing.fixesOf found) text).text fs with
        | some e => rw [fixRounds_of_refused hread hround hrefused]
        | none =>
          rw [fixRounds_succ hread hround hrefused, saved_of_refusal h]
          split
          · exact ih
          · rfl

/-- What is read from a file is what it holds. -/
theorem read_congr {gs : Files} (h : gs.lookup file = fs.lookup file) :
    gs.read file = fs.read file := by
  rw [Files.read, Files.read, h]

/-- **When a repair that fails leaves the file alone.**  It does exactly when a check of the
file fails in the same way, or when it fails because the file may not be written, and then it
changes no other file either.  Otherwise some rounds of fixes have been made before, and the
file is left with the text that they have made and that cannot be checked. -/
theorem lintFix_leaves_iff (c : Checker) (parser : Parser) (plan : Plan) (file : Path) (fs : Files)
    (e : Failure) (h : (c.lintFix parser plan file fs).value.result = .error e) :
    let left := (c.lintFix parser plan file fs).value.files
    (left.lookup file = fs.lookup file ↔
        (c.lintOnly parser plan file fs).value = .error e ∨
          ∃ err, fs.refusal file = some err ∧ e = .unwritable file err) ∧
      (left.lookup file = fs.lookup file → left = fs) ∧
      (left.lookup file ≠ fs.lookup file → ∃ text made i,
        fs.read file = .ok text ∧ left.read file = .ok made ∧ made ≠ text ∧
        0 < i ∧ i ≤ maxRounds ∧ made = (c.turn parser plan file ⟨text, fs⟩ i).text ∧
        c.FailsIn parser plan file ⟨text, fs⟩ e left i) := by
  intro left
  cases hread : fs.read file with
  | error e' =>
    -- nothing is written to a file that cannot be read
    have hvalue : (c.lintFix parser plan file fs).value = ⟨fs, .error (.unreadable file e')⟩ :=
      value_fixRounds_of_error hread maxRounds
    have hleft : left = fs := congrArg Outcome.files hvalue
    rw [hvalue] at h
    refine ⟨iff_of_true (by rw [hleft]) (Or.inl ?_), fun _ => hleft, fun hne => ?_⟩
    · rw [lintOnly, hread]
      exact h
    · exact absurd (by rw [hleft]) hne
  | ok text =>
    have hends : IsDenied file fs e left ∨
        ∃ i ≤ maxRounds, c.FailsIn parser plan file ⟨text, fs⟩ e left i :=
      @exists_failing_turn c parser plan file maxRounds ⟨text, fs⟩ e hread h
    rcases hends with hdenied | ⟨i, hi, hfails⟩
    · exact ⟨iff_of_true (by rw [hdenied.left]) (Or.inr hdenied.refusal), fun _ => hdenied.left,
        fun hne => absurd (by rw [hdenied.left]) hne⟩
    have hleft : left.read file = .ok (c.turn parser plan file ⟨text, fs⟩ i).text := by
      rw [hfails.left]
      exact hfails.reads
    rw [value_lintOnly hread]
    cases i with
    | zero =>
      have hsame : left = fs := hfails.left
      exact ⟨iff_of_true (by rw [hsame]) (Or.inl hfails.fails), fun _ => hsame,
        fun hne => absurd (by rw [hsame]) hne⟩
    | succ i =>
      -- the first text can be checked, so it is not the one that is left
      obtain ⟨found, hfound⟩ : ∃ found, (c.checkText parser plan file text).value = .ok found :=
        hfails.checked 0 (Nat.succ_pos i)
      have hne : (c.turn parser plan file ⟨text, fs⟩ (i + 1)).text ≠ text := by
        intro heq
        have hlast := hfails.fails
        rw [heq, hfound] at hlast
        cases hlast
      have hchanged : left.lookup file ≠ fs.lookup file := by
        intro hsame
        have hsame := read_congr hsame
        rw [hleft, hread] at hsame
        exact hne (Except.ok.inj hsame)
      refine ⟨iff_of_false hchanged ?_, fun hsame => absurd hsame hchanged, fun _ =>
        ⟨text, _, i + 1, rfl, hleft, hne, Nat.succ_pos i, hi, rfl, hfails⟩⟩
      rintro (herror | ⟨err, hrefusal, -⟩)
      · rw [hfound] at herror
        cases herror
      · have hsame : left = fs := files_fixRounds_of_refusal hrefusal maxRounds
        exact hchanged (by rw [hsame])

/-! ### A statement that begins with an element -/

/-- A statement with a semicolon, and one that is an element. -/
def elementText : Text := "a;\n<b/>".toList

/-- Without the semicolon, the element would have to be compared with. -/
def elementOnce : Text := "a\n<b/>".toList

/-- The tree of the element. -/
def elementB : Node :=
  .construct "jsx_self_closing_element" 3 7
    [.token "<" 3, .mk ⟨"identifier", true, some "name", ⟨4, 5⟩⟩ [], .token "/>" 5]

/-- The trees of these scripts.  The second one is malformed: no semicolon is inserted in front
of a `<`, and nothing can be compared with `b/`. -/
def elementTrees : ParseTable :=
  [⟨.javascript, elementText, none, ⟨false, .construct "program" 0 7
      [statementA (some 1), .construct "expression_statement" 3 7 [elementB]]⟩⟩,
   ⟨.javascript, elementOnce, none, ⟨true, .construct "ERROR" 0 6⟩⟩]

theorem checkText_elementText :
    (script.checkText elementTrees.parser strayPlan ⟨"a.js"⟩ elementText).value =
      .ok [redundant elementText 1] := by
  have hvalue : (script.checkText elementTrees.parser strayPlan ⟨"a.js"⟩ elementText).value =
      .ok (Diagnostic.sort [redundant elementText 1]) := rfl
  rw [hvalue, Diagnostic.sort_singleton]

theorem checkText_elementOnce :
    (script.checkText elementTrees.parser strayPlan ⟨"a.js"⟩ elementOnce).value =
      .error (.malformed ⟨"a.js"⟩) := rfl

theorem rounds_elementText :
    script.Rounds elementTrees.parser strayPlan ⟨"a.js"⟩ 0 elementText elementOnce :=
  .last (round_of_single checkText_elementText rfl (by decide))

/-- The semicolon is found redundant and deleted, although the line behind it continues the
statement without it.  The repair fails, and the file is left malformed. -/
theorem lintFix_elementText :
    let outcome :=
      (script.lintFix elementTrees.parser strayPlan ⟨"a.js"⟩ (strayFiles elementText)).value
    Preset.ofTables { script := [("semi", { level := .error })] } = .ok semicolonPreset ∧
      script ∈ builtin ∧ outcome.result = .error (.malformed ⟨"a.js"⟩) ∧
      (strayFiles elementText).read ⟨"a.js"⟩ = .ok elementText ∧
      outcome.files.read ⟨"a.js"⟩ = .ok elementOnce ∧
      ¬ outcome.files.lookup ⟨"a.js"⟩ = (strayFiles elementText).lookup ⟨"a.js"⟩ := by
  intro outcome
  have hread : (strayFiles elementText).read ⟨"a.js"⟩ = .ok elementText := rfl
  obtain ⟨hresult, hleft⟩ := lintFix_of_rounds rounds_elementText (by decide) hread rfl
  refine ⟨?_, mem_builtin.2 (Or.inr rfl), hresult.trans checkText_elementOnce, hread, hleft,
    fun hsame => ?_⟩
  · simp only [Preset.ofTables, Preset.sortEntries, List.mergeSort_nil, List.mergeSort_singleton]
    rfl
  · have hsame := read_congr hsame
    rw [hleft, hread] at hsame
    exact absurd (Except.ok.inj hsame) (by decide)

/-- A script that is malformed from the start stays as it is. -/
theorem lintFix_leaves_elementOnce :
    let outcome :=
      (script.lintFix elementTrees.parser strayPlan ⟨"a.js"⟩ (strayFiles elementOnce)).value
    outcome.result = .error (.malformed ⟨"a.js"⟩) ∧ outcome.files = strayFiles elementOnce := by
  intro outcome
  have hread : (strayFiles elementOnce).read ⟨"a.js"⟩ = .ok elementOnce := rfl
  have hresult : outcome.result = .error (.malformed ⟨"a.js"⟩) :=
    congrArg Outcome.result (value_fixRounds_of_checkText hread checkText_elementOnce 9)
  obtain ⟨hiff, hsame, -⟩ := lintFix_leaves_iff script elementTrees.parser strayPlan ⟨"a.js"⟩
    (strayFiles elementOnce) (.malformed ⟨"a.js"⟩) hresult
  exact ⟨hresult, hsame (hiff.2 (Or.inl ((value_lintOnly hread).trans checkText_elementOnce)))⟩

end Checker
end WebLint
