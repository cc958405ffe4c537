import WebLint.Proofs.Checker.Interleaving

/-!
# A single worker

When no turns have been taken, a pool does all the work in the order of the
checkers and of their files: each file is checked, or repaired, before the next
one is begun, and after the first that fails the checker begins no other.  This is
what checkers that follow each other do.

What is proved here:

* `play_replicate` — a task that has all turns for itself arrives where it would alone;
* `play_turnsFor` — files that have their turns one after the other are checked one
  after the other;
* `value_run_eq_batches` — a single worker lets the checkers follow each other.
-/

namespace WebLint
namespace Checker

variable {parser : Parser} {plan : Plan} {checkers : List Checker} {c : Checker} {fs : Files}
variable {s s' : Pool} {t u : Task}

theorem value_play_append (first rest : List Task) (s : Pool) :
    (s.play parser plan checkers (first ++ rest)).value =
      ((s.play parser plan checkers first).value.play parser plan checkers rest).value := by
  induction first generalizing s with
  | nil => rfl
  | cons t first ih =>
    rw [List.cons_append, value_play_cons, value_play_cons]
    exact ih _

/-! ## One task -/

/-- Whether one task alone has taken steps from one pool to another. -/
structure Follows (parser : Parser) (plan : Plan) (c : Checker) (t : Task) (s s' : Pool) :
    Prop where
  /-- What the task arrives at is the same. -/
  alone : c.alone parser plan t.file s'.files (s'.stage t) =
    c.alone parser plan t.file s.files (s.stage t)
  /-- What it has read is still there. -/
  holds : (s'.stage t).Holds s'.files t.file
  /-- Its checker has failed if it has. -/
  failed : s'.failure t.place = (s'.stage t).failure?
  /-- The others are where they were. -/
  stage : ∀ u, u ≠ t → s'.stage u = s.stage u
  /-- So are the other checkers. -/
  failure : ∀ i, i ≠ t.place → s'.failure i = s.failure i

/-- A task takes a step, and then others. -/
theorem Follows.trans {s'' : Pool} (h₁ : Follows parser plan c t s s')
    (h₂ : Follows parser plan c t s' s'') : Follows parser plan c t s s'' where
  alone := h₂.alone.trans h₁.alone
  holds := h₂.holds
  failed := h₂.failed
  stage u hu := (h₂.stage u hu).trans (h₁.stage u hu)
  failure i hi := (h₂.failure i hi).trans (h₁.failure i hi)

theorem follows_step (ht : t.IsOf plan checkers c) (hholds : (s.stage t).Holds s.files t.file)
    (hfailed : s.failure t.place = (s.stage t).failure?) :
    Follows parser plan c t s (s.step parser plan checkers t).value := by
  rcases step_cases parser plan checkers s t with ⟨hsame, -⟩ | ⟨gs, next, d, begun, htakes, hstep⟩
  · rw [hsame]
    exact ⟨rfl, hholds, hfailed, fun _ _ => rfl, fun _ _ => rfl⟩
  · obtain rfl := htakes.isOf.unique ht
    rw [hstep]
    have hadvances := htakes.advances
    refine ⟨?_, ?_, ?_, fun u hu => stage_stepped_of_ne _ _ _ hu,
      fun i hi => failure_stepped_of_ne _ _ _ hi⟩
    · rw [stage_stepped_self]
      exact hadvances.alone hholds
    · rw [stage_stepped_self]
      exact hadvances.holds hholds
    · -- a task that has a step to take has not failed
      have hnone : s.failure t.place = none := by
        rw [hfailed, Option.eq_none_iff_forall_ne_some]
        intro e he
        exact htakes.ne_of_finished (Stage.failure?_eq_some.1 he) rfl
      rw [failure_stepped_self, stage_stepped_self]
      show (s.failure t.place).or _ = _
      rw [hnone, Option.none_or]

theorem follows_replicate (parser : Parser) (ht : t.IsOf plan checkers c) (n : Nat)
    (hholds : (s.stage t).Holds s.files t.file)
    (hfailed : s.failure t.place = (s.stage t).failure?) :
    Follows parser plan c t s (s.play parser plan checkers (List.replicate n t)).value := by
  induction n generalizing s with
  | zero => exact ⟨rfl, hholds, hfailed, fun _ _ => rfl, fun _ _ => rfl⟩
  | succ n ih =>
    have hstep : Follows parser plan c t s (s.step parser plan checkers t).value :=
      follows_step ht hholds hfailed
    rw [List.replicate_succ, value_play_cons]
    exact hstep.trans (ih hstep.holds hstep.failed)

/-- **A task that has all turns for itself arrives where it would alone.** -/
theorem play_replicate (parser : Parser) (ht : t.IsOf plan checkers c)
    (hwaiting : s.stage t = .waiting) (hnone : s.failure t.place = none) :
    let s' := (s.play parser plan checkers (List.replicate maxTurns t)).value
    s'.files = (c.lintFile parser plan t.file s.files).value.files ∧
      s'.stage t = .finished (c.lintFile parser plan t.file s.files).value.result ∧
      Follows parser plan c t s s' := by
  intro s'
  have hs' : Follows parser plan c t s s' :=
    follows_replicate parser ht maxTurns (by rw [hwaiting]; trivial) (by rw [hwaiting, hnone]; rfl)
  -- the task is done: if its checker has failed, it is because of this task
  obtain ⟨result, hdone⟩ : ∃ result, s'.stage t = .finished result := by
    have hturns : (s.stage t).turns ≤ (List.replicate maxTurns t).count t := by
      rw [hwaiting, List.count_replicate_self]
      exact Nat.le_refl _
    rcases done_play parser ht hturns with hdone | hfailed
    · exact hdone
    · obtain ⟨e, he⟩ := Option.isSome_iff_exists.1 hfailed
      exact ⟨_, Stage.failure?_eq_some.1 (hs'.failed.symm.trans he)⟩
  have halone := hs'.alone
  rw [hdone, hwaiting] at halone
  have hvalue : (⟨s'.files, result⟩ : Outcome (List Diagnostic)) =
      (c.lintFile parser plan t.file s.files).value := halone
  rw [← hvalue]
  exact ⟨rfl, hdone, hs'⟩

/-! ## Some files -/

/-- What has come of some files of the checker at a place. -/
def collected (s : Pool) (place : Nat) (paths : List Path) : Except Failure (List Diagnostic) :=
  match s.failure place with
  | some e => .error e
  | none => .ok (paths.flatMap fun p => (s.stage ⟨place, p⟩).found)

/-- Whether the checker at a place has worked some files off from one pool to another, one
after the other. -/
structure WorksOff (parser : Parser) (plan : Plan) (c : Checker) (place : Nat)
    (paths : List Path) (s s' : Pool) : Prop where
  /-- The files are left as they are when they are checked one after the other. -/
  files : s'.files = (c.lintFiles parser plan paths s.files).value.files
  /-- What comes of them is the same. -/
  result : collected s' place paths = (c.lintFiles parser plan paths s.files).value.result
  /-- The other tasks are where they were. -/
  stage : ∀ u : Task, u.place ≠ place ∨ u.file ∉ paths → s'.stage u = s.stage u
  /-- So are the other checkers. -/
  failure : ∀ i, i ≠ place → s'.failure i = s.failure i

/-- A checker that has failed begins nothing more. -/
theorem play_of_failed {turns : List Task}
    (h : ∀ t ∈ turns, s.stage t = .waiting ∧ (s.failure t.place).isSome = true) :
    (s.play parser plan checkers turns).value = s := by
  induction turns with
  | nil => rfl
  | cons t turns ih =>
    obtain ⟨⟨hwaiting, hfailed⟩, hrest⟩ := List.forall_mem_cons.1 h
    have hidle : s.isReady t = false := by
      rw [Pool.isReady, hwaiting]
      simpa [Option.isSome_iff_ne_none] using hfailed
    rcases step_cases parser plan checkers s t with ⟨hsame, -⟩ | ⟨gs, next, d, begun, htakes, -⟩
    · rw [value_play_cons, hsame]
      exact ih hrest
    · exact absurd htakes.ready (by simp [hidle])

/-- **Files that have their turns one after the other are checked one after the other.** -/
theorem play_turnsFor (parser : Parser) {place : Nat} (hc : checkers[place]? = some c)
    {paths : List Path} (hpaths : ∀ p ∈ paths, p ∈ plan.paths c.language) (hnodup : paths.Nodup)
    (hwaiting : ∀ p ∈ paths, s.stage ⟨place, p⟩ = .waiting) (hnone : s.failure place = none) :
    WorksOff parser plan c place paths s
      (s.play parser plan checkers (Pool.turnsFor place paths)).value := by
  induction paths generalizing s with
  | nil =>
    refine ⟨rfl, ?_, fun _ _ => rfl, fun _ _ => rfl⟩
    show collected s place [] = .ok []
    rw [collected, hnone]
    rfl
  | cons p paths ih =>
    obtain ⟨hp, hnodup⟩ := List.nodup_cons.1 hnodup
    obtain ⟨hpmem, hpaths⟩ := List.forall_mem_cons.1 hpaths
    obtain ⟨hpwaiting, hwaiting⟩ := List.forall_mem_cons.1 hwaiting
    have hturns : Pool.turnsFor place (p :: paths) =
        List.replicate maxTurns ⟨place, p⟩ ++ Pool.turnsFor place paths := rfl
    rw [hturns, value_play_append]
    obtain ⟨hfiles, hdone, hfollows⟩ := play_replicate parser
      (t := ⟨place, p⟩) ⟨hc, hpmem⟩ hpwaiting hnone
    generalize (s.play parser plan checkers (List.replicate maxTurns ⟨place, p⟩)).value = r at *
    have hne : ∀ q ∈ paths, (⟨place, q⟩ : Task) ≠ ⟨place, p⟩ := by
      rintro q hq heq
      exact hp ((Task.mk.inj heq).2 ▸ hq)
    have hrest : ∀ q ∈ paths, r.stage ⟨place, q⟩ = .waiting := fun q hq =>
      (hfollows.stage _ (hne q hq)).trans (hwaiting q hq)
    have hother : ∀ u : Task, u.place ≠ place ∨ u.file ∉ p :: paths → u ≠ ⟨place, p⟩ := by
      rintro u hu rfl
      rcases hu with hu | hu
      · exact hu rfl
      · exact hu List.mem_cons_self
    have hfailed := hfollows.failed
    rw [hdone] at hfailed
    cases hresult : (c.lintFile parser plan p s.files).value.result with
    | error e =>
      rw [hresult] at hfailed
      have hlint : (c.lintFiles parser plan (p :: paths) s.files).value =
          ⟨(c.lintFile parser plan p s.files).value.files, .error e⟩ := by
        rw [value_lintFiles_cons, hresult]
      have hsome : (r.failure place).isSome = true := by rw [hfailed]; rfl
      rw [play_of_failed fun t ht => ?_]
      · refine ⟨by rw [hlint, hfiles], ?_, fun u hu => hfollows.stage u (hother u hu),
          hfollows.failure⟩
        rw [hlint, collected, hfailed]
        rfl
      · obtain ⟨q, hq, ht⟩ := List.mem_flatMap.1 ht
        rw [List.eq_of_mem_replicate ht]
        exact ⟨hrest q hq, hsome⟩
    | ok found =>
      rw [hresult] at hfailed hdone
      obtain ⟨hrestFiles, hrestResult, hstage, hfailure⟩ := ih hpaths hnodup hrest hfailed
      have hlint : (c.lintFiles parser plan (p :: paths) s.files).value =
          ⟨(c.lintFiles parser plan paths r.files).value.files,
            (c.lintFiles parser plan paths r.files).value.result.map (found ++ ·)⟩ := by
        rw [value_lintFiles_cons, hresult, hfiles]
      rw [hfiles] at hlint
      refine ⟨by rw [hlint, hrestFiles, hfiles], ?_, fun u hu => ?_, fun i hi =>
        (hfailure i hi).trans (hfollows.failure i hi)⟩
      · rw [hlint, ← hfiles, ← hrestResult, collected, collected]
        have hown : (r.play parser plan checkers (Pool.turnsFor place paths)).value.stage
            ⟨place, p⟩ = .finished (.ok found) :=
          (hstage ⟨place, p⟩ (Or.inr hp)).trans hdone
        cases (r.play parser plan checkers (Pool.turnsFor place paths)).value.failure place with
        | some e => rfl
        | none => simp only [List.flatMap_cons, hown]; rfl
      · have hbehind := hu.imp_right fun hnot hmem => hnot (List.mem_cons_of_mem p hmem)
        exact (hstage u hbehind).trans (hfollows.stage u (hother u hu))

/-! ## Some checkers -/

/-- Whether nothing has happened yet at the places from `place` on. -/
structure Untouched (s : Pool) (place : Nat) : Prop where
  /-- No task has begun. -/
  stage : ∀ u : Task, place ≤ u.place → s.stage u = .waiting
  /-- No checker has failed. -/
  failure : ∀ i, place ≤ i → s.failure i = none

/-- A checker whose tasks have not begun does what it does alone. -/
theorem value_finish_eq (parser : Parser) {place : Nat} (hc : checkers[place]? = some c)
    (hnodup : (plan.paths c.language).Nodup) (hs : Untouched s place) :
    let finished := (s.finish parser plan checkers c place).value
    (finished.1.files, finished.2) = (c.batch parser plan s.files).value ∧
      Untouched finished.1 (place + 1) := by
  intro finished
  obtain ⟨begun, hbegin⟩ := value_begin plan c place s
  have hworks : WorksOff parser plan c place (plan.paths c.language)
      { s with begun := begun } finished.1 := by
    have hplay := play_turnsFor parser (s := { s with begun := begun }) hc
      (fun _ hp => hp) hnodup (fun p _ => hs.stage ⟨place, p⟩ (Nat.le_refl _))
      (hs.failure place (Nat.le_refl _))
    rwa [← hbegin] at hplay ⊢
  have hcwd : finished.1.files.cwd = s.files.cwd := by
    rw [hworks.files]
    exact (alike_check s.files).cwd
  have houtcome : finished.1.outcome plan c place =
      (c.lintFiles parser plan (plan.paths c.language) s.files).value.result.map
        Diagnostic.sort := by
    rw [← hworks.result, collected, Pool.outcome]
    cases finished.1.failure place with
    | some e => rfl
    | none => rfl
  have hbatch : finished.2 = Batch.ofOutcome c.name (finished.1.outcome plan c place)
      (Diagnostic.toRecord (some finished.1.files.cwd)) := rfl
  refine ⟨?_, fun u hu => ?_, fun i hi => ?_⟩
  · rw [hbatch, houtcome, hcwd, hworks.files]
    rfl
  · exact (hworks.stage u (Or.inl (by omega))).trans (hs.stage u (by omega))
  · exact (hworks.failure i (by omega)).trans (hs.failure i (by omega))

theorem getElem?_of_drop {place : Nat} {cs : List Checker} (h : checkers.drop place = c :: cs) :
    checkers[place]? = some c ∧ checkers.drop (place + 1) = cs := by
  rw [← List.head?_drop, ← List.tail_drop, h]
  exact ⟨rfl, rfl⟩

theorem value_batch (c : Checker) (fs : Files) :
    (c.batch parser plan fs).value = ((c.check parser plan fs).value.files,
      Batch.ofOutcome c.name (c.check parser plan fs).value.result
        (Diagnostic.toRecord (some fs.cwd))) := rfl

theorem value_batches_cons (c : Checker) (cs : List Checker) (fs : Files) :
    (batches parser plan (c :: cs) fs).value =
      ((batches parser plan cs (c.batch parser plan fs).value.1).value.1,
        (c.batch parser plan fs).value.2 ::
          (batches parser plan cs (c.batch parser plan fs).value.1).value.2) := rfl

/-- Checkers whose tasks have not begun do what they do one after the other. -/
theorem value_finishFrom_eq {place : Nat} {cs : List Checker} (hcs : checkers.drop place = cs)
    (hnodup : ∀ language, (plan.paths language).Nodup) (hs : Untouched s place) :
    ((s.finishFrom parser plan checkers place cs).value.1.files,
      (s.finishFrom parser plan checkers place cs).value.2) =
        (batches parser plan cs s.files).value := by
  induction cs generalizing s place with
  | nil => rfl
  | cons c cs ih =>
    obtain ⟨hc, hrest⟩ := getElem?_of_drop hcs
    obtain ⟨hvalue, huntouched⟩ := value_finish_eq parser hc (hnodup c.language) hs
    have hothers := ih hrest huntouched
    rw [value_batches_cons, ← hvalue]
    exact congrArg (fun r : Files × List Batch => (r.1, _ :: r.2)) hothers

/-- Without turns, checkers that share a pool follow each other. -/
theorem value_sideBySide_nil (hnodup : ∀ language, (plan.paths language).Nodup)
    (checkers : List Checker) (fs : Files) :
    (sideBySide [] parser checkers plan fs).value = (batches parser plan checkers fs).value :=
  value_finishFrom_eq (s := .start fs) rfl hnodup ⟨fun _ _ => rfl, fun _ _ => rfl⟩

/-- Without turns, it makes no difference whether each checker has a pool of its own. -/
theorem value_inSequence_nil (hnodup : ∀ language, (plan.paths language).Nodup) (place : Nat)
    (checkers : List Checker) (fs : Files) :
    (inSequence [] parser plan place checkers fs).value =
      (batches parser plan checkers fs).value := by
  induction checkers generalizing place fs with
  | nil => rfl
  | cons c cs ih =>
    have hfirst : (sideBySide (turnsAt place []) parser [c] plan fs).value =
        ((c.batch parser plan fs).value.1, [(c.batch parser plan fs).value.2]) :=
      value_sideBySide_nil hnodup [c] fs
    rw [inSequence, Logged.value_bind, hfirst, value_batches_cons, ← ih (place + 1)]
    rfl

/-- **A single worker lets the checkers follow each other.** -/
theorem value_run_eq_batches (hnodup : ∀ language, (plan.paths language).Nodup)
    (checkers : List Checker) (fs : Files) :
    (run parser checkers plan fs).value = (batches parser plan checkers fs).value := by
  rw [run, runOn]
  split
  · exact value_inSequence_nil hnodup 0 checkers fs
  · exact value_sideBySide_nil hnodup checkers fs

end Checker
end WebLint
