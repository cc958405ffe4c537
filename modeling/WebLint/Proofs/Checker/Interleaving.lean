import Mathlib.Data.List.Pairwise
import Mathlib.Logic.Relation
import WebLint.Proofs.Checker.Tasks

/-!
# Checkers at work side by side

A run has a task for each checker and each of its files.  The tasks may all be
under way at once, and their steps may follow each other in any order.  When
nothing is repaired, or no two tasks lead to the same file, the order makes no
difference: a step of one task never changes what another one arrives at, and so
each arrives where it would have arrived alone.

What is proved here:

* `step_cases`, `runs_play` — what a step of a pool can do, and any number of them;
* `Recorded.runs` — a checker has failed when one of its tasks has;
* `Agrees.runs` — steps in any order leave what the tasks arrive at as it is;
* `done_play` — a task is done once it has had its turns, unless its checker has
  failed before.
-/

namespace WebLint

/-- Whether a task is one of a checker at work, that at its place. -/
structure Task.IsOf (plan : Plan) (checkers : List Checker) (t : Task) (c : Checker) : Prop where
  /-- The checker is at the place of the task. -/
  checker : checkers[t.place]? = some c
  /-- It reads the file. -/
  file : t.file ∈ plan.paths c.language

theorem Task.IsOf.unique {plan : Plan} {checkers : List Checker} {t : Task} {c d : Checker}
    (hc : t.IsOf plan checkers c) (hd : t.IsOf plan checkers d) : c = d :=
  Option.some.inj (hc.checker.symm.trans hd.checker)

namespace Checker

variable {parser : Parser} {plan : Plan} {checkers : List Checker} {c d : Checker} {fs gs : Files}
variable {s s' : Pool} {t u : Task} {stage next : Stage}

theorem Stage.failure?_eq_some {e : Failure} :
    stage.failure? = some e ↔ stage = .finished (.error e) := by
  cases stage with
  | finished result => cases result <;> simp [Stage.failure?]
  | _ => simp [Stage.failure?]

/-! ## Moves -/

/-- A task that is done has no step to take. -/
theorem isReady_of_finished {result : Except Failure (List Diagnostic)}
    (h : s.stage t = .finished result) : s.isReady t = false := by
  rw [Pool.isReady, h]

/-- A task that has no step to take is done, or may not begin. -/
theorem of_not_isReady (h : s.isReady t = false) :
    (∃ result, s.stage t = .finished result) ∨
      s.stage t = .waiting ∧ (s.failure t.place).isSome = true := by
  rw [Pool.isReady] at h
  split at h
  · rename_i hwaiting
    exact Or.inr ⟨hwaiting, by simpa using h⟩
  · rename_i result hfinished
    exact Or.inl ⟨result, hfinished⟩
  · cases h

@[simp] theorem stage_stepped_self (s : Pool) (t : Task) (gs : Files) (next : Stage) :
    (s.stepped t gs next).stage t = next := if_pos rfl

theorem stage_stepped_of_ne (s : Pool) (gs : Files) (next : Stage) (h : u ≠ t) :
    (s.stepped t gs next).stage u = s.stage u := if_neg h

@[simp] theorem failure_stepped_self (s : Pool) (t : Task) (gs : Files) (next : Stage) :
    (s.stepped t gs next).failure t.place = (s.failure t.place).or next.failure? := if_pos rfl

theorem failure_stepped_of_ne (s : Pool) (gs : Files) (next : Stage) {i : Nat}
    (h : i ≠ t.place) : (s.stepped t gs next).failure i = s.failure i := if_neg h

/-- What a task does to a pool when it takes a step. -/
structure Takes (parser : Parser) (plan : Plan) (checkers : List Checker) (s : Pool) (t : Task)
    (gs : Files) (next : Stage) (c : Checker) : Prop where
  /-- It is one of the tasks of a checker. -/
  isOf : t.IsOf plan checkers c
  /-- It has a step to take. -/
  ready : s.isReady t = true
  /-- The checker takes a step. -/
  advances : c.Advances parser plan t.file s.files (s.stage t) gs next

theorem Takes.ne_of_finished (h : Takes parser plan checkers s t gs next c)
    {result : Except Failure (List Diagnostic)} (hdone : s.stage u = .finished result) :
    u ≠ t := by
  rintro rfl
  exact absurd h.ready (by simp [isReady_of_finished hdone])

/-- A checker that begins changes neither the files nor its tasks. -/
theorem value_begin (plan : Plan) (c : Checker) (place : Nat) (s : Pool) :
    ∃ begun, (s.begin plan c place).value = { s with begun := begun } := by
  unfold Pool.begin
  split
  · exact ⟨s.begun, rfl⟩
  · exact ⟨_, rfl⟩

/-- **What a turn does.**  It changes nothing, when the task has no step to take; otherwise
the task takes a step. -/
theorem step_cases (parser : Parser) (plan : Plan) (checkers : List Checker) (s : Pool) (t : Task) :
    ((s.step parser plan checkers t).value = s ∧
        ∀ c, t.IsOf plan checkers c → s.isReady t = false) ∨
      ∃ gs next c begun, Takes parser plan checkers s t gs next c ∧
        (s.step parser plan checkers t).value = { s with begun := begun }.stepped t gs next := by
  unfold Pool.step
  split
  · rename_i hnone
    refine Or.inl ⟨rfl, fun c hc => ?_⟩
    rw [hc.checker] at hnone
    cases hnone
  · rename_i c hc
    split
    · rename_i hready
      obtain ⟨hfile, hready⟩ := Bool.and_eq_true_iff.1 hready
      obtain ⟨begun, hbegin⟩ := value_begin plan c t.place s
      refine Or.inr ⟨_, _, c, begun, ⟨⟨hc, by simpa using hfile⟩, hready,
        advances c parser plan t.file s.files (s.stage t)⟩, ?_⟩
      simp only [Logged.value_bind, hbegin, Logged.value_pure]
    · rename_i hready
      refine Or.inl ⟨rfl, fun d hd => ?_⟩
      obtain rfl : c = d := Option.some.inj (hc.symm.trans hd.checker)
      have hfile : (plan.paths c.language).contains t.file = true := by simpa using hd.file
      rw [hfile, Bool.true_and] at hready
      simpa using hready

/-- Turns follow each other. -/
theorem value_play_cons (t : Task) (turns : List Task) (s : Pool) :
    (s.play parser plan checkers (t :: turns)).value =
      ((s.step parser plan checkers t).value.play parser plan checkers turns).value := rfl

/-- A move of a pool: a checker begins, or a task takes a step. -/
inductive Moves (parser : Parser) (plan : Plan) (checkers : List Checker) : Pool → Pool → Prop
  | begins {s : Pool} (begun : Nat → Bool) :
    Moves parser plan checkers s { s with begun := begun }
  | steps {s : Pool} {t : Task} {gs : Files} {next : Stage} {c : Checker} :
    Takes parser plan checkers s t gs next c → Moves parser plan checkers s (s.stepped t gs next)

/-- Any number of moves. -/
abbrev Runs (parser : Parser) (plan : Plan) (checkers : List Checker) : Pool → Pool → Prop :=
  Relation.ReflTransGen (Moves parser plan checkers)

theorem runs_begin (parser : Parser) (plan : Plan) (checkers : List Checker) (c : Checker)
    (place : Nat) (s : Pool) :
    Runs parser plan checkers s (s.begin plan c place).value := by
  obtain ⟨begun, hbegin⟩ := value_begin plan c place s
  rw [hbegin]
  exact .single (.begins begun)

theorem runs_step (parser : Parser) (plan : Plan) (checkers : List Checker) (s : Pool) (t : Task) :
    Runs parser plan checkers s (s.step parser plan checkers t).value := by
  rcases step_cases parser plan checkers s t with ⟨hsame, -⟩ | ⟨gs, next, c, begun, htakes, hstep⟩
  · rw [hsame]
  · rw [hstep]
    exact .tail (.single (.begins begun)) (.steps ⟨htakes.isOf, htakes.ready, htakes.advances⟩)

theorem runs_play (parser : Parser) (plan : Plan) (checkers : List Checker) (turns : List Task)
    (s : Pool) : Runs parser plan checkers s (s.play parser plan checkers turns).value := by
  induction turns generalizing s with
  | nil => exact .refl
  | cons t turns ih => exact (runs_step parser plan checkers s t).trans (ih _)

/-- A task that is done stays so. -/
theorem finished_runs (h : Runs parser plan checkers s s')
    {result : Except Failure (List Diagnostic)} (hdone : s.stage t = .finished result) :
    s'.stage t = .finished result := by
  induction h with
  | refl => exact hdone
  | tail _ hmove ih =>
    cases hmove with
    | begins begun => exact ih
    | steps htakes =>
      rw [stage_stepped_of_ne _ _ _ (htakes.ne_of_finished ih)]
      exact ih

/-- A checker that has failed stays so. -/
theorem failure_runs (h : Runs parser plan checkers s s') {i : Nat} {e : Failure}
    (hfailed : s.failure i = some e) : s'.failure i = some e := by
  induction h with
  | refl => exact hfailed
  | tail _ hmove ih =>
    cases hmove with
    | begins begun => exact ih
    | @steps t gs next c htakes =>
      by_cases hi : i = t.place
      · subst hi
        rw [failure_stepped_self, ih, Option.some_or]
      · rw [failure_stepped_of_ne _ _ _ hi]
        exact ih

/-! ## Failures -/

/-- Whether the checkers that have failed are those of the tasks that have. -/
structure Recorded (plan : Plan) (checkers : List Checker) (s : Pool) : Prop where
  /-- The checker of a task that has failed has failed. -/
  failed : ∀ t e, s.stage t = .finished (.error e) → (s.failure t.place).isSome = true
  /-- A checker that has failed has a task that has failed for the same reason. -/
  reason : ∀ i e, s.failure i = some e →
    ∃ t c, t.place = i ∧ t.IsOf plan checkers c ∧ s.stage t = .finished (.error e)

theorem Recorded.start (plan : Plan) (checkers : List Checker) (fs : Files) :
    Recorded plan checkers (.start fs) :=
  ⟨fun _ _ h => (nomatch h), fun _ _ h => (nomatch h)⟩

theorem Recorded.steps (h : Recorded plan checkers s)
    (htakes : Takes parser plan checkers s t gs next c) :
    Recorded plan checkers (s.stepped t gs next) where
  failed u e hu := by
    by_cases hut : u = t
    · subst hut
      rw [stage_stepped_self] at hu
      rw [failure_stepped_self, Stage.failure?_eq_some.2 hu]
      simp
    · rw [stage_stepped_of_ne _ _ _ hut] at hu
      have hfailed := h.failed u e hu
      by_cases hplace : u.place = t.place
      · rw [hplace] at hfailed ⊢
        rw [failure_stepped_self, Option.isSome_or, hfailed, Bool.true_or]
      · rwa [failure_stepped_of_ne _ _ _ hplace]
  reason i e hi := by
    have hkept : s.failure i = some e → ∃ u d, u.place = i ∧ u.IsOf plan checkers d ∧
        (s.stepped t gs next).stage u = .finished (.error e) := by
      intro hfailed
      obtain ⟨u, d, hplace, hu, hstage⟩ := h.reason i e hfailed
      refine ⟨u, d, hplace, hu, ?_⟩
      rw [stage_stepped_of_ne _ _ _ (htakes.ne_of_finished hstage)]
      exact hstage
    by_cases hplace : i = t.place
    · subst hplace
      rw [failure_stepped_self, Option.or_eq_some_iff] at hi
      rcases hi with hi | ⟨-, hi⟩
      · exact hkept hi
      · exact ⟨t, c, rfl, htakes.isOf, by rw [stage_stepped_self, Stage.failure?_eq_some.1 hi]⟩
    · rw [failure_stepped_of_ne _ _ _ hplace] at hi
      exact hkept hi

theorem Recorded.runs (h : Recorded plan checkers s) (hruns : Runs parser plan checkers s s') :
    Recorded plan checkers s' := by
  induction hruns with
  | refl => exact h
  | tail _ hmove ih =>
    cases hmove with
    | begins begun => exact ⟨ih.failed, ih.reason⟩
    | steps htakes => exact ih.steps htakes

/-! ## Tasks that do not get in each other's way -/

/-- Whether two files do not get in each other's way: nothing is repaired, or they are
different files. -/
def Bypass (plan : Plan) (fs : Files) (p q : Path) : Prop :=
  plan.fix = false ∨ Separate fs p q

instance : Std.Symm (Separate fs) := ⟨fun _ _ h names hq hp => h names hp hq⟩

instance : Std.Symm (Bypass plan fs) := ⟨fun _ _ h => h.imp_right (Std.Symm.symm _ _)⟩

/-- Files that do not get in each other's way do not when the files hold something else. -/
theorem bypass_congr (h : Files.Alike fs gs) {p q : Path} (hbypass : Bypass plan fs p q) :
    Bypass plan gs p q := by
  refine hbypass.imp_right fun hseparate names hnames => ?_
  rw [Apart, Files.resolve_congr h]
  rw [Files.resolve_congr h] at hnames
  exact hseparate names hnames

/-- Whether no two tasks of some checkers get in each other's way. -/
structure Independent (plan : Plan) (fs : Files) (checkers : List Checker) : Prop where
  /-- No two files of a checker do. -/
  within : ∀ c ∈ checkers, (plan.paths c.language).Pairwise (Bypass plan fs)
  /-- No files of two checkers do. -/
  across : checkers.Pairwise fun c d =>
    ∀ p ∈ plan.paths c.language, ∀ q ∈ plan.paths d.language, Bypass plan fs p q

theorem Independent.congr (h : Independent plan fs checkers) (halike : Files.Alike fs gs) :
    Independent plan gs checkers where
  within c hc := (h.within c hc).imp (bypass_congr halike)
  across := h.across.imp fun hcd p hp q hq => bypass_congr halike (hcd p hp q hq)

/-- Two tasks do not get in each other's way. -/
theorem Independent.bypass (h : Independent plan fs checkers) (hc : t.IsOf plan checkers c)
    (hd : u.IsOf plan checkers d) (hne : u ≠ t) : Bypass plan fs t.file u.file := by
  obtain ⟨hi, hci⟩ := List.getElem?_eq_some_iff.1 hc.checker
  obtain ⟨hj, hdj⟩ := List.getElem?_eq_some_iff.1 hd.checker
  have hpairs := List.pairwise_iff_getElem.1 h.across
  rcases Nat.lt_trichotomy t.place u.place with hlt | heq | hgt
  · exact hpairs _ _ hi hj hlt t.file (hci ▸ hc.file) u.file (hdj ▸ hd.file)
  · obtain rfl : c = d := by
      have hchecker := hd.checker
      rw [← heq, hc.checker] at hchecker
      exact Option.some.inj hchecker
    have hfiles : t.file ≠ u.file := fun hfile => hne (by
      obtain ⟨i, p⟩ := t
      obtain ⟨j, q⟩ := u
      exact Task.mk.injEq .. ▸ ⟨heq.symm, hfile.symm⟩)
    exact (h.within c (hci ▸ List.getElem_mem hi)).forall hc.file hd.file hfiles
  · exact Std.Symm.symm _ _ (hpairs _ _ hj hi hgt u.file (hdj ▸ hd.file) t.file (hci ▸ hc.file))

/-! ## Steps in any order -/

/-- Whether the tasks of some checkers, from some point on, arrive where they would
have arrived alone. -/
structure Agrees (parser : Parser) (plan : Plan) (checkers : List Checker) (fs : Files)
    (s : Pool) : Prop where
  /-- No other file has changed. -/
  keeps : Files.Keeps (fun names => ∀ (t : Task) c, t.IsOf plan checkers c → Apart fs t.file names)
    fs s.files
  /-- What has been read is still there. -/
  holds : ∀ (t : Task) c, t.IsOf plan checkers c → (s.stage t).Holds s.files t.file
  /-- What the tasks arrive at. -/
  outcome : ∀ (t : Task) c, t.IsOf plan checkers c → SameFor t.file
    (c.alone parser plan t.file s.files (s.stage t)) (c.lintFile parser plan t.file fs).value
  /-- Where nothing is repaired, no file has changed. -/
  plain : plan.fix = false → s.files = fs ∧ ∀ t, (s.stage t).Plain

theorem Agrees.start (parser : Parser) (plan : Plan) (checkers : List Checker) (fs : Files) :
    Agrees parser plan checkers fs (.start fs) where
  keeps := .refl _ fs
  holds _ _ _ := trivial
  outcome _ _ _ := ⟨rfl, rfl⟩
  plain _ := ⟨rfl, fun _ => trivial⟩

/-- A step of one task leaves the texts of the others' files as they are. -/
theorem Agrees.sameText (h : Agrees parser plan checkers fs s)
    (hind : Independent plan fs checkers) (htakes : Takes parser plan checkers s t gs next c)
    (hu : u.IsOf plan checkers d) (hne : u ≠ t) : SameText u.file s.files gs := by
  rcases hind.bypass htakes.isOf hu hne with hfix | hseparate
  · rw [(htakes.advances.plain hfix ((h.plain hfix).2 t)).2]
    exact ⟨rfl, rfl⟩
  · refine sameText_of_keeps (htakes.advances.keeps (h.holds t c htakes.isOf))
      fun names hnames hown => ?_
    rw [Files.resolve_congr h.keeps.toAlike] at hnames hown
    exact hseparate names hown hnames

/-- **A step leaves what all tasks arrive at as it is.** -/
theorem Agrees.steps (h : Agrees parser plan checkers fs s)
    (hind : Independent plan fs checkers) (htakes : Takes parser plan checkers s t gs next c) :
    Agrees parser plan checkers fs (s.stepped t gs next) where
  keeps := by
    have hstep := htakes.advances.keeps (h.holds t c htakes.isOf)
    refine ⟨h.keeps.toAlike.trans hstep.toAlike, fun names hnames => ?_⟩
    refine (hstep.file names ?_).trans (h.keeps.file names hnames)
    rw [Apart, Files.resolve_congr h.keeps.toAlike]
    exact hnames t c htakes.isOf
  holds u d hu := by
    by_cases hut : u = t
    · subst hut
      rw [stage_stepped_self]
      exact htakes.advances.holds (h.holds u d hu)
    · rw [stage_stepped_of_ne _ _ _ hut]
      exact holds_congr (h.sameText hind htakes hu hut).read (h.holds u d hu)
  outcome u d hu := by
    by_cases hut : u = t
    · subst hut
      obtain rfl := htakes.isOf.unique hu
      rw [stage_stepped_self]
      exact (htakes.advances.alone (h.holds u c hu)).symm ▸ h.outcome u c hu
    · rw [stage_stepped_of_ne _ _ _ hut]
      exact (alone_congr (h.sameText hind htakes hu hut) (h.holds u d hu)).trans
        (h.outcome u d hu)
  plain hfix := by
    obtain ⟨hfiles, hplain⟩ := h.plain hfix
    obtain ⟨hnext, hsame⟩ := htakes.advances.plain hfix (hplain t)
    refine ⟨hsame.trans hfiles, fun u => ?_⟩
    by_cases hut : u = t
    · subst hut
      rw [stage_stepped_self]
      exact hnext
    · rw [stage_stepped_of_ne _ _ _ hut]
      exact hplain u

/-- Any number of steps, in any order, leave what all tasks arrive at as it
is. -/
theorem Agrees.runs (h : Agrees parser plan checkers fs s) (hind : Independent plan fs checkers)
    (hruns : Runs parser plan checkers s s') : Agrees parser plan checkers fs s' := by
  induction hruns with
  | refl => exact h
  | tail _ hmove ih =>
    cases hmove with
    | begins begun => exact ⟨ih.keeps, ih.holds, ih.outcome, ih.plain⟩
    | steps htakes => exact ih.steps hind htakes

/-- A task that is done has found what it finds alone. -/
theorem Agrees.result_eq (h : Agrees parser plan checkers fs s) (ht : t.IsOf plan checkers c)
    {result : Except Failure (List Diagnostic)} (hdone : s.stage t = .finished result) :
    (c.lintFile parser plan t.file fs).value.result = result := by
  have hresult := (h.outcome t c ht).1
  rw [hdone] at hresult
  exact hresult.symm

/-! ## The number of steps -/

/-- A task that may not begin does not. -/
theorem waiting_play (hwaiting : s.stage t = .waiting)
    (hfailed : (s.failure t.place).isSome = true) (turns : List Task) :
    (s.play parser plan checkers turns).value.stage t = .waiting ∧
      ((s.play parser plan checkers turns).value.failure t.place).isSome = true := by
  induction turns generalizing s with
  | nil => exact ⟨hwaiting, hfailed⟩
  | cons u turns ih =>
    rw [value_play_cons]
    refine ih ?_ ?_
    · rcases step_cases parser plan checkers s u with ⟨hsame, -⟩ | ⟨gs, next, c, _, htakes, hstep⟩
      · rw [hsame, hwaiting]
      · rw [hstep, stage_stepped_of_ne _ _ _ ?_]
        · exact hwaiting
        · rintro rfl
          have hready := htakes.ready
          rw [Pool.isReady, hwaiting] at hready
          simp only [Option.isNone_iff_eq_none] at hready
          rw [hready] at hfailed
          cases hfailed
    · obtain ⟨e, he⟩ := Option.isSome_iff_exists.1 hfailed
      rw [failure_runs (runs_step parser plan checkers s u) he]
      rfl

/-- Every turn of a task is one of those it had left, unless it may not begin. -/
theorem turns_play (parser : Parser) (ht : t.IsOf plan checkers c) (turns : List Task) (s : Pool) :
    ((s.play parser plan checkers turns).value.stage t).turns ≤
        (s.stage t).turns - turns.count t ∨
      (s.play parser plan checkers turns).value.stage t = .waiting ∧
        ((s.play parser plan checkers turns).value.failure t.place).isSome = true := by
  induction turns generalizing s with
  | nil => exact Or.inl (Nat.le_refl _)
  | cons u turns ih =>
    rcases step_cases parser plan checkers s u with
      ⟨hsame, hidle⟩ | ⟨gs, next, d, begun, htakes, hstep⟩
    · by_cases hut : u = t
      · subst hut
        rcases of_not_isReady (hidle c ht) with ⟨result, hdone⟩ | ⟨hwaiting, hfailed⟩
        · refine Or.inl ?_
          rw [finished_runs (runs_play parser plan checkers (u :: turns) s) hdone]
          exact Nat.zero_le _
        · exact Or.inr (waiting_play hwaiting hfailed (u :: turns))
      · rw [List.count_cons_of_ne hut, value_play_cons, hsame]
        exact ih s
    · rw [value_play_cons, hstep]
      refine (ih _).imp_left fun hrest => ?_
      by_cases hut : u = t
      · subst hut
        have hturn := htakes.advances.turns
        rw [stage_stepped_self] at hrest
        rw [List.count_cons_self]
        refine Nat.le_trans hrest ?_
        omega
      · rw [stage_stepped_of_ne _ _ _ (Ne.symm hut)] at hrest
        rwa [List.count_cons_of_ne hut]

/-- How many steps are left never exceeds what a task takes at most. -/
theorem turns_le_maxTurns_of_runs (fs : Files) (hruns : Runs parser plan checkers (.start fs) s)
    (t : Task) : (s.stage t).turns ≤ maxTurns := by
  induction hruns with
  | refl => exact Nat.le_refl _
  | tail _ hmove ih =>
    cases hmove with
    | begins begun => exact ih
    | @steps u gs next c htakes =>
      by_cases htu : t = u
      · subst htu
        rw [stage_stepped_self]
        exact Nat.le_trans htakes.advances.turns (by omega)
      · rwa [stage_stepped_of_ne _ _ _ htu]

/-- **A task is done once it has had its turns**, whatever the order, unless its checker has
failed before it could begin. -/
theorem done_play (parser : Parser) (ht : t.IsOf plan checkers c) {turns : List Task}
    (hturns : (s.stage t).turns ≤ turns.count t) :
    (∃ result, (s.play parser plan checkers turns).value.stage t = .finished result) ∨
      ((s.play parser plan checkers turns).value.failure t.place).isSome = true := by
  rcases turns_play parser ht turns s with hplay | ⟨-, hfailed⟩
  · exact Or.inl (exists_finished (by omega))
  · exact Or.inr hfailed

end Checker
end WebLint
