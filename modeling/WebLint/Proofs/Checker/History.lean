import Mathlib.Logic.Function.Iterate
import WebLint.Proofs.Checker.Rounds
import WebLint.Proofs.Checker.Writes
import WebLint.Proofs.Diagnostic
import WebLint.Proofs.Tree

/-!
# The history of a repair

A repair reads its file again in every round, and whether there is another round depends on
what it remembers of the one before.  So it matters what has been read when: here the rounds
are numbered, and with them the texts that the file holds one after the other.  Nothing is
assumed of the checker, the parser or the rules.

What is proved here:

* `fixRounds_eq_succ` — one round of a repair: what it leaves, and what it logs;
* `read_nextTurn` — after a round the file holds the text that the next one is about;
* `exists_ends` — the rounds of a repair, how many there are, and what comes of them;
* `exists_history` — a repair that succeeds has a history, in which the file is written when
  its text changes and at no other time.
-/

namespace WebLint
namespace Checker

variable {c : Checker} {parser : Parser} {plan : Plan} {file : Path} {fs : Files}

/-! ## One round -/

/-- What is found in a text, nothing if it cannot be checked. -/
def noted (c : Checker) (parser : Parser) (plan : Plan) (file : Path) (text : Text) :
    List Diagnostic :=
  (c.checkText parser plan file text).value.toOption.getD []

/-- What the fixes of all that is found in a text make of it. -/
def mended (c : Checker) (parser : Parser) (plan : Plan) (file : Path) (text : Text) :
    Fixing.Result :=
  Fixing.apply (Fixing.fixesOf (c.noted parser plan file text)) text

/-- Where a repair has got to. -/
structure Turn where
  /-- The text to check next. -/
  text : Text
  /-- The files, one of which holds it. -/
  files : Files

/-- Where a repair has got to after one more round. -/
def nextTurn (c : Checker) (parser : Parser) (plan : Plan) (file : Path) (now : Turn) : Turn :=
  let made := (c.mended parser plan file now.text).text
  ⟨made, saved file now.text made now.files⟩

/-- Why what a round makes of a text cannot be written, if it cannot. -/
def halted (c : Checker) (parser : Parser) (plan : Plan) (file : Path) (now : Turn) :
    Option FileError :=
  refused file now.text (c.mended parser plan file now.text).text now.files

/-- What a round logs: the check, the fixes that are dropped, and that the file is written,
if it is. -/
def roundEvents (file : Path) (checked : List Event) (found : List Diagnostic)
    (before after : Text) : List Event :=
  checked ++ (Fixing.applyLogged (Fixing.fixesOf found) before).events ++
    if after = before then [] else [writing file]

theorem noted_of_ok {text : Text} {found : List Diagnostic}
    (h : (c.checkText parser plan file text).value = .ok found) :
    c.noted parser plan file text = found := by
  simp [noted, h, Except.toOption]

/-- A round makes of a text what its fixes make of it. -/
theorem round_mended {text : Text} {found : List Diagnostic}
    (h : (c.checkText parser plan file text).value = .ok found) :
    c.Round parser plan file text (c.mended parser plan file text) :=
  ⟨found, h, by rw [mended, noted_of_ok h]⟩

theorem events_save (before after : Text) : (save file before after fs).events =
    if after = before then [] else [writing file] := by
  by_cases h : after = before
  · simp [save, h]
  · rw [save, if_neg h, if_neg h, Logged.events_bind]
    cases fs.refusal file with
    | some e => rfl
    | none => rfl

/-- After a round whose text is saved the file holds the text of the next round. -/
theorem read_nextTurn {now : Turn} (h : now.files.read file = .ok now.text)
    (hgoes : c.halted parser plan file now = none) :
    (c.nextTurn parser plan file now).files.read file =
      .ok (c.nextTurn parser plan file now).text :=
  saved_read h hgoes

/-- A check of a file is one of the text it holds. -/
theorem lintOnly_of_read {text : Text} (h : fs.read file = .ok text) :
    c.lintOnly parser plan file fs = c.checkText parser plan file text := by
  rw [lintOnly, h]

/-- **One round of a repair.**  If it skips no fix, no further round is allowed. -/
theorem fixRounds_eq_succ (limit : Nat) {now : Turn} {found : List Diagnostic}
    (hread : now.files.read file = .ok now.text)
    (hfound : (c.checkText parser plan file now.text).value = .ok found)
    (hgoes : c.halted parser plan file now = none) :
    let next := c.nextTurn parser plan file now
    let rest := c.fixRounds parser plan file
      (if (c.mended parser plan file now.text).skipped then limit else 0) next.files
    (c.fixRounds parser plan file (limit + 1) now.files).value = rest.value ∧
      (c.fixRounds parser plan file (limit + 1) now.files).events =
        roundEvents file (c.checkText parser plan file now.text).events
          (c.noted parser plan file now.text) now.text next.text ++ rest.events := by
  intro next rest
  have hmended : (Fixing.applyLogged (Fixing.fixesOf found) now.text).value =
      c.mended parser plan file now.text := by
    rw [mended, noted_of_ok hfound]
    rfl
  have hfiles : (save file now.text (c.mended parser plan file now.text).text now.files).value =
      .ok next.files := by
    rw [halted] at hgoes
    rw [value_save, hgoes]
    rfl
  have htext : next.text = (c.mended parser plan file now.text).text := rfl
  rw [fixRounds_next, hread]
  simp only [Logged.value_bind, Logged.events_bind, hfound, hmended, hfiles]
  rw [roundEvents, noted_of_ok hfound, events_save, htext]
  by_cases hskipped : (c.mended parser plan file now.text).skipped = true
  · simp [rest, hskipped]
  · simp [rest, hskipped, fixRounds_zero]

/-! ## All rounds -/

/-- Where a repair has got to after some rounds. -/
def turn (c : Checker) (parser : Parser) (plan : Plan) (file : Path) (first : Turn) (i : Nat) :
    Turn :=
  (c.nextTurn parser plan file)^[i] first

theorem turn_succ (first : Turn) (i : Nat) : c.turn parser plan file first (i + 1) =
    c.nextTurn parser plan file (c.turn parser plan file first i) :=
  Function.iterate_succ_apply' _ _ _

/-- What a repair has logged after some rounds. -/
def turnEvents (c : Checker) (parser : Parser) (plan : Plan) (file : Path) (first : Turn)
    (i : Nat) : List Event :=
  let now := c.turn parser plan file first i
  roundEvents file (c.checkText parser plan file now.text).events
    (c.noted parser plan file now.text) now.text (c.turn parser plan file first (i + 1)).text

/-- Whether a repair that may take `limit` rounds ends after `rounds` of them, with `last` as
what is found in the end. -/
structure Ends (c : Checker) (parser : Parser) (plan : Plan) (file : Path) (first : Turn)
    (limit rounds : Nat) (last : List Diagnostic) : Prop where
  /-- There are no more rounds than there may be. -/
  le_limit : rounds ≤ limit
  /-- The file holds the text of each round, and the last text after it. -/
  reads : ∀ i ≤ rounds, (c.turn parser plan file first i).files.read file =
    .ok (c.turn parser plan file first i).text
  /-- The text of each round can be checked. -/
  checked : ∀ i < rounds, ∃ found,
    (c.checkText parser plan file (c.turn parser plan file first i).text).value = .ok found
  /-- Each round but the last skips a fix. -/
  skips : ∀ i, i + 1 < rounds →
    (c.mended parser plan file (c.turn parser plan file first i).text).skipped = true
  /-- The last one skips none, unless there may be no more. -/
  stops : rounds = limit ∨ ∃ i, rounds = i + 1 ∧
    (c.mended parser plan file (c.turn parser plan file first i).text).skipped = false
  /-- What is found in the end is found in the text after the last round. -/
  found : (c.checkText parser plan file (c.turn parser plan file first rounds).text).value =
    .ok last
  /-- The files that are left are those after the last round. -/
  left : (c.fixRounds parser plan file limit first.files).value =
    ⟨(c.turn parser plan file first rounds).files, .ok last⟩
  /-- What is logged is what the rounds log, and the check behind them. -/
  events : (c.fixRounds parser plan file limit first.files).events =
    (List.range rounds).flatMap (c.turnEvents parser plan file first) ++
      (c.checkText parser plan file (c.turn parser plan file first rounds).text).events

section

variable {limit rounds : Nat} {first : Turn} {found last : List Diagnostic}

/-- A repair that may take no round is a check. -/
theorem ends_zero (hread : first.files.read file = .ok first.text)
    (h : (c.fixRounds parser plan file 0 first.files).value.result = .ok last) :
    c.Ends parser plan file first 0 0 last := by
  have hlint : c.lintOnly parser plan file first.files = c.checkText parser plan file first.text :=
    lintOnly_of_read hread
  have hfound : (c.checkText parser plan file first.text).value = .ok last := by
    rw [← hlint]
    exact h
  have hreads : ∀ i ≤ 0, (c.turn parser plan file first i).files.read file =
      .ok (c.turn parser plan file first i).text := by
    intro i hi
    rw [Nat.le_zero.1 hi]
    exact hread
  refine ⟨Nat.le_refl 0, hreads, fun i hi => absurd hi (Nat.not_lt_zero i),
    fun i hi => absurd hi (Nat.not_lt_zero _), Or.inl rfl, hfound, ?_, ?_⟩
  · simp [fixRounds_zero, hlint, hfound, turn]
  · simp [fixRounds_zero, hlint, turn]

/-- A round, and a repair behind it that may take further ones if it skips a fix. -/
theorem Ends.succ (hread : first.files.read file = .ok first.text)
    (hfound : (c.checkText parser plan file first.text).value = .ok found)
    (hgoes : c.halted parser plan file first = none)
    (h : c.Ends parser plan file (c.nextTurn parser plan file first)
      (if (c.mended parser plan file first.text).skipped then limit else 0) rounds last) :
    c.Ends parser plan file first (limit + 1) (rounds + 1) last := by
  obtain ⟨hvalue, hevents⟩ := fixRounds_eq_succ limit hread hfound hgoes
  have hreads : ∀ i ≤ rounds + 1, (c.turn parser plan file first i).files.read file =
      .ok (c.turn parser plan file first i).text := by
    intro i hi
    cases i with
    | zero => exact hread
    | succ i => exact h.reads i (Nat.le_of_succ_le_succ hi)
  have hchecked : ∀ i < rounds + 1, ∃ found,
      (c.checkText parser plan file (c.turn parser plan file first i).text).value = .ok found := by
    intro i hi
    cases i with
    | zero => exact ⟨found, hfound⟩
    | succ i => exact h.checked i (Nat.lt_of_succ_lt_succ hi)
  have hlog : (List.range (rounds + 1)).flatMap (c.turnEvents parser plan file first) =
      c.turnEvents parser plan file first 0 ++
        (List.range rounds).flatMap
          (c.turnEvents parser plan file (c.nextTurn parser plan file first)) := by
    rw [List.range_succ_eq_map, List.flatMap_cons, List.flatMap_map]
    rfl
  refine ⟨?_, hreads, hchecked, fun i hi => ?_, ?_, h.found, hvalue.trans h.left, ?_⟩
  · have hle := h.le_limit
    split at hle <;> omega
  · cases i with
    | zero =>
      by_contra (hskipped : ¬ (c.mended parser plan file first.text).skipped = true)
      have hle := h.le_limit
      rw [if_neg hskipped] at hle
      omega
    | succ i => exact h.skips i (Nat.lt_of_succ_lt_succ hi)
  · by_cases hskipped : (c.mended parser plan file first.text).skipped = true
    · rcases h.stops with hlimit | ⟨i, hrounds, hi⟩
      · rw [if_pos hskipped] at hlimit
        exact Or.inl (by rw [hlimit])
      · exact Or.inr ⟨i + 1, by rw [hrounds], hi⟩
    · have hle := h.le_limit
      rw [if_neg hskipped] at hle
      exact Or.inr ⟨0, by omega, eq_false_of_ne_true hskipped⟩
  · rw [hevents, h.events, hlog, List.append_assoc]
    rfl

end

/-- The rounds of a repair that succeeds. -/
theorem exists_ends {limit : Nat} {first : Turn} {last : List Diagnostic}
    (hread : first.files.read file = .ok first.text)
    (h : (c.fixRounds parser plan file limit first.files).value.result = .ok last) :
    ∃ rounds, c.Ends parser plan file first limit rounds last := by
  induction limit generalizing first with
  | zero => exact ⟨0, ends_zero hread h⟩
  | succ limit ih =>
    cases hfound : (c.checkText parser plan file first.text).value with
    | error e =>
      rw [value_fixRounds_of_checkText hread hfound] at h
      cases h
    | ok found =>
      cases hgoes : c.halted parser plan file first with
      | some e =>
        rw [fixRounds_of_refused hread (round_mended hfound) hgoes] at h
        cases h
      | none =>
        obtain ⟨hvalue, -⟩ := fixRounds_eq_succ limit hread hfound hgoes
        rw [hvalue] at h
        have hnext := read_nextTurn hread hgoes
        obtain ⟨rounds, hrest⟩ : ∃ rounds,
            c.Ends parser plan file (c.nextTurn parser plan file first)
              (if (c.mended parser plan file first.text).skipped then limit else 0)
              rounds last := by
          by_cases hskipped : (c.mended parser plan file first.text).skipped = true
          · rw [if_pos hskipped] at h ⊢
            exact ih hnext h
          · rw [if_neg hskipped] at h ⊢
            exact ⟨0, ends_zero hnext h⟩
        exact ⟨rounds + 1, hrest.succ hread hfound hgoes⟩

/-! ## Histories -/

/-- Whether the file has held some texts one after the other: `text i` before the round with
number `i`, from 0, and the last one after `rounds` rounds. -/
structure IsHistory (c : Checker) (parser : Parser) (plan : Plan) (file : Path) (rounds : Nat)
    (text : Nat → Text) (found : Nat → List Diagnostic) (files : Nat → Files) : Prop where
  /-- The file holds each of the texts. -/
  reads : ∀ i ≤ rounds, (files i).read file = .ok (text i)
  /-- What is found is found in the text that the file holds. -/
  finds : ∀ i ≤ rounds, (c.checkText parser plan file (text i)).value = .ok (found i)
  /-- The fixes of what is found in a text make the next one. -/
  mends : ∀ i < rounds, text (i + 1) = (Fixing.apply (Fixing.fixesOf (found i)) (text i)).text
  /-- The next text is written, unless it is the same. -/
  saves : ∀ i < rounds,
    files (i + 1) = if text (i + 1) = text i then files i else (files i).write file (text (i + 1))
  /-- There is another round when a fix has been skipped. -/
  skips : ∀ i, i + 1 < rounds →
    (Fixing.apply (Fixing.fixesOf (found i)) (text i)).skipped = true

theorem Ends.isHistory {limit rounds : Nat} {first : Turn} {last : List Diagnostic}
    (h : c.Ends parser plan file first limit rounds last) :
    c.IsHistory parser plan file rounds (fun i => (c.turn parser plan file first i).text)
      (fun i => c.noted parser plan file (c.turn parser plan file first i).text)
      (fun i => (c.turn parser plan file first i).files) where
  reads := h.reads
  finds i hi := by
    have hfound : ∃ found,
        (c.checkText parser plan file (c.turn parser plan file first i).text).value =
          .ok found := by
      rcases Nat.lt_or_eq_of_le hi with hlt | rfl
      · exact h.checked i hlt
      · exact ⟨last, h.found⟩
    obtain ⟨found, hfound⟩ := hfound
    rw [noted_of_ok hfound, hfound]
  mends i _ := by
    rw [turn_succ]
    rfl
  saves i _ := by
    rw [turn_succ]
    rfl
  skips := h.skips

/-- **The history of a repair.**  When a repair succeeds the file has held a first text, the
one it held before, and after each round the text that the fixes of what was found in the one
before make of it.  What the repair yields is what is found in the last of these texts, and
this is the text that the file is left with.  There are ten rounds, or the last one skips no
fix, and the file is written in those rounds only that change its text. -/
theorem exists_history (c : Checker) (parser : Parser) (plan : Plan) (file : Path) (fs : Files)
    (last : List Diagnostic) (h : (c.lintFix parser plan file fs).value.result = .ok last) :
    ∃ rounds text found files, c.IsHistory parser plan file rounds text found files ∧
      0 < rounds ∧ rounds ≤ maxRounds ∧
      files 0 = fs ∧ (c.lintFix parser plan file fs).value.files = files rounds ∧
      last = found rounds ∧
      ((Fixing.apply (Fixing.fixesOf (found (rounds - 1))) (text (rounds - 1))).skipped = false ∨
        rounds = maxRounds) ∧
      (c.lintFix parser plan file fs).events =
        (List.range rounds).flatMap (fun i =>
          roundEvents file (c.checkText parser plan file (text i)).events (found i) (text i)
            (text (i + 1))) ++ (c.checkText parser plan file (text rounds)).events := by
  obtain ⟨text, hread⟩ : ∃ text, fs.read file = .ok text := by
    cases hread : fs.read file with
    | error e =>
      rw [lintFix, value_fixRounds_of_error hread] at h
      cases h
    | ok text => exact ⟨text, rfl⟩
  obtain ⟨rounds, hends⟩ : ∃ rounds, c.Ends parser plan file ⟨text, fs⟩ maxRounds rounds last :=
    exists_ends hread h
  have hlast := noted_of_ok hends.found
  have hstops : 0 < rounds ∧ (rounds = maxRounds ∨
      (c.mended parser plan file (c.turn parser plan file ⟨text, fs⟩ (rounds - 1)).text).skipped =
        false) := by
    rcases hends.stops with hlimit | ⟨i, rfl, hi⟩
    · exact ⟨by rw [hlimit]; decide, Or.inl hlimit⟩
    · exact ⟨Nat.succ_pos i, Or.inr hi⟩
  refine ⟨rounds, _, _, _, hends.isHistory, hstops.1, hends.le_limit, rfl, ?_, hlast.symm,
    hstops.2.symm, hends.events⟩
  rw [lintFix, hends.left]

/-! ### Two rounds -/

/-- A checker that wants the beginning and the end of `abc` replaced.  The two overlap. -/
def overlapChecker : Checker where
  name := "overlap"
  language := .script
  analyze _ d _ _ _ := pure (.ok (if d.text = "abc".toList then
    [⟨.semi, "beginning", ⟨0, 2⟩, some (.replace ⟨0, 2⟩ "x".toList)⟩,
      ⟨.semi, "end", ⟨1, 3⟩, some (.replace ⟨1, 3⟩ "y".toList)⟩] else []))

/-- A parser that takes every text for a script without statements. -/
def emptyProgram : Parser := fun _ _ _ => ⟨false, .construct "program" 0 0⟩

/-- The plan to repair scripts. -/
def overlapPlan : Plan := .ofPaths {} true []

/-- What this checker finds in `abc`. -/
def overlapFound : List Diagnostic :=
  [⟨.semi, "beginning", ⟨"a.js"⟩, ⟨0, 2⟩, ⟨1, 1⟩, .off, some (.replace ⟨0, 2⟩ "x".toList)⟩,
    ⟨.semi, "end", ⟨"a.js"⟩, ⟨1, 3⟩, ⟨1, 2⟩, .off, some (.replace ⟨1, 3⟩ "y".toList)⟩]

/-- A directory with the script `abc`. -/
def overlapFiles : Files where
  cwd := ⟨"/work"⟩
  entries := [(["work", "a.js"], .text "abc".toList)]

theorem checkText_overlap :
    (overlapChecker.checkText emptyProgram overlapPlan ⟨"a.js"⟩ "abc".toList).value =
      .ok overlapFound := by
  have hvalue : (overlapChecker.checkText emptyProgram overlapPlan ⟨"a.js"⟩ "abc".toList).value =
      .ok (Diagnostic.sort overlapFound) := rfl
  rw [hvalue, Diagnostic.sort, List.mergeSort_of_pairwise (by decide)]

theorem checkText_replaced :
    (overlapChecker.checkText emptyProgram overlapPlan ⟨"a.js"⟩ "xc".toList).value = .ok [] := by
  have hvalue : (overlapChecker.checkText emptyProgram overlapPlan ⟨"a.js"⟩ "xc".toList).value =
      .ok (Diagnostic.sort []) := rfl
  rw [hvalue, Diagnostic.sort_nil]

/-- The first round replaces the beginning and skips the end, and in the second there is
nothing left to replace. -/
theorem rounds_overlap :
    overlapChecker.Rounds emptyProgram overlapPlan ⟨"a.js"⟩ 1 "abc".toList "xc".toList := by
  refine .another ⟨_, checkText_overlap, ?_⟩ (.last ⟨_, checkText_replaced, ?_⟩)
  · rw [Fixing.apply, Fixing.sort_eq_self (by decide)]
    decide
  · rw [Fixing.apply, Fixing.sort_eq_self (by decide)]
    decide

/-- A repair of two rounds, and its history. -/
theorem exists_history_overlap :
    (overlapChecker.lintFix emptyProgram overlapPlan ⟨"a.js"⟩ overlapFiles).value.result = .ok [] ∧
      ∃ rounds text found files,
        overlapChecker.IsHistory emptyProgram overlapPlan ⟨"a.js"⟩ rounds text found files ∧
        (overlapChecker.lintFix emptyProgram overlapPlan ⟨"a.js"⟩ overlapFiles).value.files =
          files rounds ∧ text rounds = "xc".toList := by
  obtain ⟨hresult, hleft⟩ := lintFix_of_rounds rounds_overlap (by decide)
    (show overlapFiles.read ⟨"a.js"⟩ = .ok "abc".toList from rfl) rfl
  have hresult := hresult.trans checkText_replaced
  obtain ⟨rounds, text, found, files, hhistory, -, -, -, hfiles, -⟩ :=
    exists_history overlapChecker emptyProgram overlapPlan ⟨"a.js"⟩ overlapFiles [] hresult
  have htext := hhistory.reads rounds (Nat.le_refl rounds)
  rw [← hfiles, hleft] at htext
  exact ⟨hresult, rounds, text, found, files, hhistory, hfiles, (Except.ok.inj htext).symm⟩

end Checker
end WebLint
