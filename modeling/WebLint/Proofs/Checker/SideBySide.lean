import WebLint.Proofs.Checker.Rerun
import WebLint.Proofs.Checker.SingleWorker

/-!
# One checker after the other, or side by side

When nothing is repaired, or when no file is given to both checkers, all tasks of
a run may be at work at once.  Otherwise the checkers follow each other, and only
the files of one checker are at work at once.  Either way it makes no difference
in which order the workers take their turns, as long as no task fails: what is
reported and what is left is what each task finds, and leaves behind, alone.

What is proved here:

* `finish_comes`, `sideBySide_comes` — what comes of a checker whose tasks share a
  pool with others;
* `Agrees.same` — what is left when all tasks are done is the same, however it has
  been left;
* `sideBySide_same`, `inSequence_same` — whatever the order of the turns, the same
  is reported and left;
* `runOn_any_order` — whatever the order, a run does what the checkers do one after
  the other.
-/

namespace WebLint
namespace Checker

variable {parser : Parser} {plan : Plan} {checkers : List Checker} {c : Checker} {fs gs : Files}
variable {s s' : Pool} {t u : Task} {place : Nat}

/-! ## What comes of a checker -/

/-- What a checker finds in a file when it is at work on no other, nothing if it fails. -/
def foundAlone (c : Checker) (parser : Parser) (plan : Plan) (fs : Files) (file : Path) :
    List Diagnostic :=
  (c.lintFile parser plan file fs).value.result.toOption.getD []

/-- Whether a checker succeeds on each of its files alone. -/
def Succeeds (c : Checker) (parser : Parser) (plan : Plan) (fs : Files) : Prop :=
  ∀ p ∈ plan.paths c.language,
    (c.lintFile parser plan p fs).value.result = .ok (c.foundAlone parser plan fs p)

/-- The batch of what a checker finds in its files alone. -/
def batchAlone (c : Checker) (parser : Parser) (plan : Plan) (fs : Files) : Batch :=
  Batch.ofOutcome c.name
    (.ok (Diagnostic.sort ((plan.paths c.language).flatMap (c.foundAlone parser plan fs))))
    (Diagnostic.toRecord (some fs.cwd))

/-- What may come of a checker: what it finds in its files alone, or else a failure of one of
them, and no record. -/
def Comes (parser : Parser) (plan : Plan) (fs : Files) (c : Checker) (b : Batch) : Prop :=
  (c.Succeeds parser plan fs ∧ b = c.batchAlone parser plan fs) ∨
    ∃ p ∈ plan.paths c.language, ∃ e, (c.lintFile parser plan p fs).value.result = .error e ∧
      b = ⟨c.name, [], some e⟩

/-- Whether no checker has failed. -/
def Fine (batches : List Batch) : Prop := ∀ b ∈ batches, b.failure = none

instance (batches : List Batch) : Decidable (Fine batches) :=
  inferInstanceAs (Decidable (∀ b ∈ batches, b.failure = none))

theorem foundAlone_of_ok {file : Path} {found : List Diagnostic}
    (h : (c.lintFile parser plan file fs).value.result = .ok found) :
    c.foundAlone parser plan fs file = found := by
  rw [foundAlone, h]
  rfl

/-- A checker that has not failed has succeeded. -/
theorem Comes.succeeds {b : Batch} (h : Comes parser plan fs c b) (hnone : b.failure = none) :
    c.Succeeds parser plan fs ∧ b = c.batchAlone parser plan fs := by
  rcases h with h | ⟨-, -, e, -, rfl⟩
  · exact h
  · cases hnone

/-- A checker that succeeds on its files alone does not fail. -/
theorem Comes.eq_batchAlone {b : Batch} (h : Comes parser plan fs c b)
    (hok : c.Succeeds parser plan fs) : b = c.batchAlone parser plan fs := by
  rcases h with h | ⟨p, hp, e, herror, -⟩
  · exact h.2
  · rw [hok p hp] at herror
    cases herror

/-! ## The end of the work -/

theorem count_turnsFor {p : Path} {paths : List Path} (h : p ∈ paths) :
    maxTurns ≤ (Pool.turnsFor place paths).count ⟨place, p⟩ := by
  induction paths with
  | nil => cases h
  | cons q paths ih =>
    have hcons : Pool.turnsFor place (q :: paths) =
        List.replicate maxTurns ⟨place, q⟩ ++ Pool.turnsFor place paths := rfl
    rw [hcons, List.count_append]
    rcases List.mem_cons.1 h with rfl | h
    · rw [List.count_replicate_self]
      exact Nat.le_add_right _ _
    · exact Nat.le_trans (ih h) (Nat.le_add_left _ _)

theorem runs_finish (parser : Parser) (plan : Plan) (checkers : List Checker) (c : Checker)
    (place : Nat) (s : Pool) :
    Runs parser plan checkers s (s.finish parser plan checkers c place).value.1 :=
  (runs_begin parser plan checkers c place s).trans (runs_play parser plan checkers _ _)

theorem batch_finish (c : Checker) (place : Nat) (s : Pool) :
    (s.finish parser plan checkers c place).value.2 =
      Batch.ofOutcome c.name
        ((s.finish parser plan checkers c place).value.1.outcome plan c place)
        (Diagnostic.toRecord
          (some (s.finish parser plan checkers c place).value.1.files.cwd)) := rfl

/-- The batch of a checker tells why it has failed. -/
theorem failure_batch_finish {e : Failure}
    (h : (s.finish parser plan checkers c place).value.1.failure place = some e) :
    (s.finish parser plan checkers c place).value.2.failure = some e := by
  rw [batch_finish, Pool.outcome, h]
  rfl

theorem value_finishFrom_cons (place : Nat) (c : Checker) (cs : List Checker) (s : Pool) :
    (s.finishFrom parser plan checkers place (c :: cs)).value =
      (((s.finish parser plan checkers c place).value.1.finishFrom parser plan checkers
          (place + 1) cs).value.1,
        (s.finish parser plan checkers c place).value.2 ::
          ((s.finish parser plan checkers c place).value.1.finishFrom parser plan checkers
            (place + 1) cs).value.2) := rfl

/-- At the end each task of a checker is done, unless the checker has failed. -/
theorem done_finish (hc : checkers[place]? = some c)
    (hruns : Runs parser plan checkers (.start fs) s) {p : Path}
    (hp : p ∈ plan.paths c.language) :
    (∃ result, (s.finish parser plan checkers c place).value.1.stage ⟨place, p⟩ =
        .finished result) ∨
      ((s.finish parser plan checkers c place).value.1.failure place).isSome = true :=
  done_play parser (t := ⟨place, p⟩) ⟨hc, hp⟩ (Nat.le_trans
    (turns_le_maxTurns_of_runs fs (hruns.trans (runs_begin parser plan checkers c place s)) _)
    (count_turnsFor hp))

/-- **What comes of a checker whose tasks have shared a pool with others.** -/
theorem finish_comes (hc : checkers[place]? = some c) (hind : Independent plan fs checkers)
    (hruns : Runs parser plan checkers (.start fs) s) :
    Comes parser plan fs c (s.finish parser plan checkers c place).value.2 := by
  have hend := hruns.trans (runs_finish parser plan checkers c place s)
  have hagrees := (Agrees.start parser plan checkers fs).runs hind hend
  have hrecorded := (Recorded.start plan checkers fs).runs hend
  have hdone := fun p (hp : p ∈ plan.paths c.language) => done_finish hc hruns hp
  rw [batch_finish]
  generalize (s.finish parser plan checkers c place).value.1 = r at *
  rw [Pool.outcome]
  cases hfailure : r.failure place with
  | some e =>
    obtain ⟨t, d, rfl, ht, hstage⟩ := hrecorded.reason place e hfailure
    obtain rfl : c = d := Option.some.inj (hc.symm.trans ht.checker)
    exact Or.inr ⟨t.file, ht.file, e, hagrees.result_eq ht hstage, rfl⟩
  | none =>
    have hfound : ∀ p ∈ plan.paths c.language,
        (c.lintFile parser plan p fs).value.result = .ok (c.foundAlone parser plan fs p) ∧
          (r.stage ⟨place, p⟩).found = c.foundAlone parser plan fs p := by
      intro p hp
      rcases hdone p hp with ⟨result, hresult⟩ | hfailed
      · have halone := hagrees.result_eq ⟨hc, hp⟩ hresult
        cases result with
        | error e =>
          have hfailed := hrecorded.failed _ e hresult
          rw [hfailure] at hfailed
          cases hfailed
        | ok found =>
          rw [hresult, foundAlone_of_ok halone]
          exact ⟨halone, rfl⟩
      · rw [hfailure] at hfailed
        cases hfailed
    refine Or.inl ⟨fun p hp => (hfound p hp).1, ?_⟩
    have hcwd : r.files.cwd = fs.cwd := hagrees.keeps.cwd
    rw [batchAlone, hcwd, List.flatMap_def, List.flatMap_def,
      List.map_congr_left fun p hp => (hfound p hp).2]

/-- What comes of the checkers from a place on, and of their tasks. -/
theorem finishFrom_comes (place : Nat) {cs : List Checker} (hcs : checkers.drop place = cs)
    (hind : Independent plan fs checkers) (hruns : Runs parser plan checkers (.start fs) s) :
    Runs parser plan checkers s (s.finishFrom parser plan checkers place cs).value.1 ∧
      List.Forall₂ (Comes parser plan fs) cs
        (s.finishFrom parser plan checkers place cs).value.2 ∧
      (Fine (s.finishFrom parser plan checkers place cs).value.2 →
        ∀ t c, place ≤ t.place → t.IsOf plan checkers c →
          ∃ result, (s.finishFrom parser plan checkers place cs).value.1.stage t =
            .finished result) := by
  induction cs generalizing s place with
  | nil =>
    refine ⟨.refl, .nil, fun _ t c hle ht => ?_⟩
    obtain ⟨hlt, -⟩ := List.getElem?_eq_some_iff.1 ht.checker
    exact absurd (List.drop_eq_nil_iff.1 hcs) (by omega)
  | cons c cs ih =>
    obtain ⟨hc, hrest⟩ := getElem?_of_drop hcs
    have hfirst := runs_finish parser plan checkers c place s
    have hdone := fun p (hp : p ∈ plan.paths c.language) => done_finish hc hruns hp
    have hcomes := finish_comes hc hind hruns
    obtain ⟨hothers, hforall, hfinished⟩ := ih (place + 1) hrest (hruns.trans hfirst)
    rw [value_finishFrom_cons]
    refine ⟨hfirst.trans hothers, .cons hcomes hforall, fun hfine t d hle ht => ?_⟩
    obtain ⟨hnone, hfine⟩ := List.forall_mem_cons.1 hfine
    rcases Nat.lt_or_eq_of_le hle with hlt | rfl
    · exact hfinished hfine t d hlt ht
    · obtain rfl : c = d := Option.some.inj (hc.symm.trans ht.checker)
      rcases hdone t.file ht.file with ⟨result, hresult⟩ | hfailed
      · exact ⟨result, finished_runs hothers hresult⟩
      · -- the batch tells when the checker has failed
        obtain ⟨e, he⟩ := Option.isSome_iff_exists.1 hfailed
        rw [failure_batch_finish he] at hnone
        cases hnone

/-! ## Side by side -/

section

variable {turns turns' : List Task}

/-- The pool of some checkers at the end of their work. -/
def lastPool (turns : List Task) (parser : Parser) (plan : Plan) (checkers : List Checker)
    (fs : Files) : Pool :=
  (((Pool.start fs).play parser plan checkers turns).value.finishFrom parser plan checkers 0
    checkers).value.1

/-- **What comes of some checkers at work side by side.** -/
theorem sideBySide_comes (turns : List Task) (parser : Parser)
    (hind : Independent plan fs checkers) :
    List.Forall₂ (Comes parser plan fs) checkers
        (sideBySide turns parser checkers plan fs).value.2 ∧
      Agrees parser plan checkers fs (lastPool turns parser plan checkers fs) ∧
      (Fine (sideBySide turns parser checkers plan fs).value.2 → ∀ t c,
        t.IsOf plan checkers c →
          ∃ result, (lastPool turns parser plan checkers fs).stage t = .finished result) := by
  have hplay := runs_play parser plan checkers turns (.start fs)
  obtain ⟨hruns, hforall, hdone⟩ := finishFrom_comes 0 List.drop_zero hind hplay
  exact ⟨hforall, (Agrees.start parser plan checkers fs).runs hind (hplay.trans hruns),
    fun hfine t c ht => hdone hfine t c (Nat.zero_le _) ht⟩

/-- Checkers that have not failed have succeeded, and the other way round. -/
theorem fine_iff {cs : List Checker} {bs : List Batch}
    (h : List.Forall₂ (Comes parser plan fs) cs bs) :
    (Fine bs ↔ ∀ c ∈ cs, c.Succeeds parser plan fs) ∧
      (Fine bs → bs = cs.map fun c => c.batchAlone parser plan fs) := by
  induction h with
  | nil => exact ⟨iff_of_true (fun _ h => absurd h List.not_mem_nil)
      (fun _ h => absurd h List.not_mem_nil), fun _ => rfl⟩
  | @cons c b cs bs hcomes _ ih =>
    have hfirst : b.failure = none ↔ c.Succeeds parser plan fs :=
      ⟨fun hnone => (hcomes.succeeds hnone).1, fun hok => by rw [hcomes.eq_batchAlone hok]; rfl⟩
    refine ⟨?_, fun hfine => ?_⟩
    · rw [Fine, List.forall_mem_cons, List.forall_mem_cons, hfirst]
      exact and_congr_right fun _ => ih.1
    · obtain ⟨hnone, hfine⟩ := List.forall_mem_cons.1 hfine
      rw [List.map_cons, (hcomes.succeeds hnone).2, ih.2 hfine]

/-! ## The same files -/

/-- Whether two states of the files hold the same. -/
abbrev Same (fs gs : Files) : Prop := Files.Keeps (fun _ => True) fs gs

theorem Same.symm (h : Same fs gs) : Same gs fs :=
  ⟨h.toAlike.symm, fun names hnames => (h.file names hnames).symm⟩

theorem Same.lintFile (h : Same fs gs) (c : Checker) (parser : Parser) (plan : Plan)
    (file : Path) : SameFor file (c.lintFile parser plan file gs).value
      (c.lintFile parser plan file fs).value :=
  lintFile_congr (sameText_of_keeps h fun _ _ => trivial)

theorem Same.foundAlone (h : Same fs gs) (c : Checker) (parser : Parser) (plan : Plan)
    (file : Path) : c.foundAlone parser plan gs file = c.foundAlone parser plan fs file := by
  rw [Checker.foundAlone, Checker.foundAlone, (h.lintFile c parser plan file).1]

theorem Same.succeeds (h : Same fs gs) (hok : c.Succeeds parser plan fs) :
    c.Succeeds parser plan gs := by
  intro p hp
  rw [(h.lintFile c parser plan p).1, h.foundAlone c parser plan p]
  exact hok p hp

theorem Same.batchAlone (h : Same fs gs) (c : Checker) (parser : Parser) (plan : Plan) :
    c.batchAlone parser plan gs = c.batchAlone parser plan fs := by
  have hfound : c.foundAlone parser plan gs = c.foundAlone parser plan fs :=
    funext fun p => h.foundAlone c parser plan p
  rw [Checker.batchAlone, Checker.batchAlone, h.cwd, hfound]

/-- A file in which something is found, or nothing, is left with a text. -/
theorem exists_read_of_lintFile {file : Path} {found : List Diagnostic}
    (h : (c.lintFile parser plan file fs).value.result = .ok found) :
    ∃ text, (c.lintFile parser plan file fs).value.files.read file = .ok text := by
  rw [lintFile] at h ⊢
  split
  · rename_i hfix
    rw [if_pos hfix] at h
    obtain ⟨text, hread, -⟩ := lintFix_eq_ok h
    exact ⟨text, hread⟩
  · rename_i hfix
    rw [if_neg hfix] at h
    obtain ⟨text, hread, -⟩ := lintOnly_eq_ok h
    exact ⟨text, hread⟩

/-- A task that is done leaves its file as it does alone. -/
theorem Agrees.read_eq (h : Agrees parser plan checkers fs s) (ht : t.IsOf plan checkers c)
    {result : Except Failure (List Diagnostic)} (hdone : s.stage t = .finished result) :
    s.files.read t.file = (c.lintFile parser plan t.file fs).value.files.read t.file := by
  have hread := (h.outcome t c ht).2
  rw [hdone] at hread
  exact hread

/-- **What is left when all tasks are done is the same, however it has been left.** -/
theorem Agrees.same (h : Agrees parser plan checkers fs s)
    (h' : Agrees parser plan checkers gs s') (hsame : Same fs gs)
    (hok : ∀ c ∈ checkers, c.Succeeds parser plan fs)
    (hdone : ∀ t c, t.IsOf plan checkers c → ∃ result, s.stage t = .finished result)
    (hdone' : ∀ t c, t.IsOf plan checkers c → ∃ result, s'.stage t = .finished result) :
    Same s.files s'.files := by
  have halike : Files.Alike fs s'.files := hsame.toAlike.trans h'.keeps.toAlike
  refine ⟨h.keeps.toAlike.symm.trans halike, fun names _ => ?_⟩
  by_cases hnames : ∃ (t : Task) (c : Checker), t.IsOf plan checkers c ∧
      fs.resolve t.file = .ok names
  · obtain ⟨t, c, ht, hresolve⟩ := hnames
    obtain ⟨result, hresult⟩ := hdone t c ht
    obtain ⟨result', hresult'⟩ := hdone' t c ht
    obtain ⟨text, htext⟩ := exists_read_of_lintFile
      (hok c (List.mem_of_getElem? ht.checker) t.file ht.file)
    have hread : s.files.read t.file = .ok text := by rw [h.read_eq ht hresult, htext]
    have hread' : s'.files.read t.file = .ok text := by
      rw [h'.read_eq ht hresult', (hsame.lintFile c parser plan t.file).2, htext]
    -- both states hold the text at the names the task leads to
    have hheld : ∀ {ks : Files}, Files.Alike fs ks → ks.read t.file = .ok text →
        ks.file? names = some (.text text) := by
      intro ks hks hread
      obtain ⟨names', hresolve', -, hfile⟩ := Files.read_eq_ok_iff.1 hread
      rw [Files.resolve_congr hks, hresolve] at hresolve'
      rw [Except.ok.inj hresolve']
      exact hfile
    rw [hheld h.keeps.toAlike hread, hheld halike hread']
  · have hapart : ∀ (t : Task) c, t.IsOf plan checkers c → Apart fs t.file names :=
      fun t c ht hresolve => hnames ⟨t, c, ht, hresolve⟩
    have hapart' : ∀ (t : Task) c, t.IsOf plan checkers c → Apart gs t.file names := by
      intro t c ht
      rw [Apart, Files.resolve_congr hsame.toAlike]
      exact hapart t c ht
    rw [h.keeps.file names hapart, h'.keeps.file names hapart', hsame.file names trivial]

/-- **Whatever the order of the turns, the same comes of checkers at work side by side.** -/
theorem sideBySide_same (hind : Independent plan fs checkers) (hsame : Same fs gs)
    (hfine : Fine (sideBySide turns parser checkers plan fs).value.2) :
    Fine (sideBySide turns' parser checkers plan gs).value.2 ∧
      Same (sideBySide turns parser checkers plan fs).value.1
        (sideBySide turns' parser checkers plan gs).value.1 ∧
      (sideBySide turns' parser checkers plan gs).value.2 =
        (sideBySide turns parser checkers plan fs).value.2 := by
  obtain ⟨hcomes, hagrees, hdone⟩ := sideBySide_comes turns parser hind
  obtain ⟨hcomes', hagrees', hdone'⟩ := sideBySide_comes turns' parser
    (hind.congr hsame.toAlike)
  obtain ⟨hiff, hbatches⟩ := fine_iff hcomes
  obtain ⟨hiff', hbatches'⟩ := fine_iff hcomes'
  have hok := hiff.1 hfine
  have hfine' := hiff'.2 fun c hc => hsame.succeeds (hok c hc)
  refine ⟨hfine', hagrees.same hagrees' hsame hok (hdone hfine) (hdone' hfine'), ?_⟩
  rw [hbatches hfine, hbatches' hfine']
  exact List.map_congr_left fun c _ => hsame.batchAlone c parser plan

theorem value_inSequence_cons (place : Nat) (c : Checker) (cs : List Checker) :
    (inSequence turns parser plan place (c :: cs) fs).value =
      ((inSequence turns parser plan (place + 1) cs
          (sideBySide (turnsAt place turns) parser [c] plan fs).value.1).value.1,
        (sideBySide (turnsAt place turns) parser [c] plan fs).value.2 ++
          (inSequence turns parser plan (place + 1) cs
            (sideBySide (turnsAt place turns) parser [c] plan fs).value.1).value.2) := rfl

/-- A checker whose files do not get in each other's way may be at work on all of them. -/
theorem independent_single (h : (plan.paths c.language).Pairwise (Bypass plan fs)) :
    Independent plan fs [c] where
  within d hd := by
    rw [List.mem_singleton.1 hd]
    exact h
  across := List.pairwise_singleton _ _

/-- Whatever the order of the turns, the same comes of checkers that follow each other. -/
theorem inSequence_same {cs : List Checker}
    (hind : ∀ c ∈ cs, (plan.paths c.language).Pairwise (Bypass plan fs)) (hsame : Same fs gs)
    (hfine : Fine (inSequence turns parser plan place cs fs).value.2) :
    Fine (inSequence turns' parser plan place cs gs).value.2 ∧
      Same (inSequence turns parser plan place cs fs).value.1
        (inSequence turns' parser plan place cs gs).value.1 ∧
      (inSequence turns' parser plan place cs gs).value.2 =
        (inSequence turns parser plan place cs fs).value.2 := by
  induction cs generalizing fs gs place with
  | nil => exact ⟨hfine, hsame, rfl⟩
  | cons c cs ih =>
    obtain ⟨hc, hcs⟩ := List.forall_mem_cons.1 hind
    rw [value_inSequence_cons] at hfine ⊢
    rw [value_inSequence_cons]
    obtain ⟨hfirst, hrest⟩ := List.forall_mem_append.1 hfine
    have halike : Files.Alike fs (sideBySide (turnsAt place turns) parser [c] plan fs).value.1 :=
      (sideBySide_comes _ parser (independent_single hc)).2.1.keeps.toAlike
    obtain ⟨hfirst', hfiles, hbatches⟩ := sideBySide_same
      (independent_single hc) hsame hfirst
    obtain ⟨hrest', hfiles', hbatches'⟩ := ih
      (fun d hd => (hcs d hd).imp (bypass_congr halike)) hfiles hrest
    exact ⟨List.forall_mem_append.2 ⟨hfirst', hrest'⟩, hfiles',
      congrArg₂ (· ++ ·) hbatches hbatches'⟩

end

/-! ## Files of both checkers -/

section Plans

variable {preset : Preset} {fix : Bool} {paths : List Path}

/-- Where a file for each checker leads to the same place, a file is shared. -/
theorem hasSharedPaths_of_resolve (hpaths : ToldApart fs paths) {p q : Path} {names : List String}
    (hp : p ∈ (Plan.ofPaths preset fix paths).stylePaths)
    (hq : q ∈ (Plan.ofPaths preset fix paths).scriptPaths) (hpnames : fs.resolve p = .ok names)
    (hqnames : fs.resolve q = .ok names) :
    (Plan.ofPaths preset fix paths).hasSharedPaths = true := by
  have hsame := hpaths p (Plan.mem_pathsFor hp).1 q (Plan.mem_pathsFor hq).1 names hpnames hqnames
  exact Plan.hasSharedPaths_eq_true.2 ⟨p, hp, q, hq, hsame⟩

/-- No two files of a checker get in each other's way. -/
theorem pairwise_bypass (hpaths : ToldApart fs paths) (preset : Preset) (fix : Bool)
    (language : Language) :
    ((Plan.ofPaths preset fix paths).paths language).Pairwise
      (Bypass (.ofPaths preset fix paths) fs) :=
  (separate_paths hpaths preset fix language).imp Or.inr

/-- Where nothing is repaired or no file is shared, no two tasks get in each
other's way. -/
theorem independent_ofPaths (hpaths : ToldApart fs paths)
    (hshared : fix = false ∨ (Plan.ofPaths preset fix paths).hasSharedPaths = false) :
    Independent (.ofPaths preset fix paths) fs builtin where
  within c _ := pairwise_bypass hpaths preset fix c.language
  across := by
    refine List.pairwise_pair.2 fun p hp q hq => hshared.imp_right fun hnone => ?_
    intro names hpnames hqnames
    rw [hasSharedPaths_of_resolve hpaths hp hq hpnames hqnames] at hnone
    cases hnone

end Plans

/-! ## All orders -/

/-- Where nothing is repaired, no two tasks get in each other's way. -/
theorem independent_of_plain (hfix : plan.fix = false) (fs : Files) (checkers : List Checker) :
    Independent plan fs checkers where
  within _ _ := List.pairwise_of_forall fun _ _ => Or.inl hfix
  across := List.pairwise_of_forall fun _ _ _ _ _ _ => Or.inl hfix

/-- Where nothing is repaired, no turn changes a file, and neither does the work behind
them. -/
theorem files_of_plain (hfix : plan.fix = false) (turns : List Task) (parser : Parser)
    (checkers : List Checker) (fs : Files) :
    ((Pool.start fs).play parser plan checkers turns).value.files = fs ∧
      (runOn turns parser checkers plan fs).value.1 = fs := by
  have hind := independent_of_plain hfix fs checkers
  have hplay := (Agrees.start parser plan checkers fs).runs hind
    (runs_play parser plan checkers turns _)
  have hlast := (sideBySide_comes turns parser hind).2.1
  refine ⟨(hplay.plain hfix).1, ?_⟩
  rw [runOn, hfix, Bool.false_and]
  exact (hlast.plain hfix).1

/-- **Whatever the order, a run does what the checkers do one after the other.**  Let the
workers of a run take their turns in any order.  No checker fails exactly when none does one
after the other; then the files hold, and the checkers report, what they do one after the
other.  Where nothing is repaired no turn changes a file.  Where files are repaired and some
file is shared, the checker of scripts begins when that of stylesheets is done.  A file is
shared exactly when some given file is markup, and whenever both checkers are led to one
file. -/
theorem runOn_any_order (parser : Parser) (preset : Preset) (fix : Bool) (paths : List Path)
    (fs : Files) (hpaths : ToldApart fs paths) :
    let plan := Plan.ofPaths preset fix paths
    let one := (batches parser plan builtin fs).value
    (∀ turns : List Task,
      let many := (runOn turns parser builtin plan fs).value
      (Fine many.2 ↔ Fine one.2) ∧
        (Fine many.2 → Same one.1 many.1 ∧ many.2 = one.2) ∧
        (fix = false →
          ((Pool.start fs).play parser plan builtin turns).value.files = fs ∧ many.1 = fs) ∧
        (fix = true → plan.hasSharedPaths = true →
          let styles := (sideBySide (turnsAt 0 turns) parser [style] plan fs).value
          let scripts := (sideBySide (turnsAt 1 turns) parser [script] plan styles.1).value
          many = (scripts.1, styles.2 ++ scripts.2))) ∧
      (plan.hasSharedPaths = true ↔ ∃ p ∈ paths, p.isMarkup = true) ∧
      ∀ p ∈ plan.stylePaths, ∀ q ∈ plan.scriptPaths, ∀ names, fs.resolve p = .ok names →
        fs.resolve q = .ok names → plan.hasSharedPaths = true := by
  intro plan one
  have hone : one = (run parser builtin plan fs).value :=
    (value_run_eq_batches (Plan.nodup_paths preset fix paths) builtin fs).symm
  have hsame : ∀ turns turns' : List Task,
      Fine (runOn turns parser builtin plan fs).value.2 →
        Fine (runOn turns' parser builtin plan fs).value.2 ∧
          Same (runOn turns parser builtin plan fs).value.1
            (runOn turns' parser builtin plan fs).value.1 ∧
          (runOn turns' parser builtin plan fs).value.2 =
            (runOn turns parser builtin plan fs).value.2 := by
    intro turns turns' hfine
    by_cases hshared : (plan.fix && plan.hasSharedPaths) = true
    · rw [runOn, if_pos hshared] at hfine
      rw [runOn, runOn, if_pos hshared, if_pos hshared]
      exact inSequence_same (fun c _ => pairwise_bypass hpaths preset fix c.language) (.refl _ fs)
        hfine
    · rw [runOn, if_neg hshared] at hfine
      rw [runOn, runOn, if_neg hshared, if_neg hshared]
      have hnone : fix = false ∨ plan.hasSharedPaths = false := by
        rw [Bool.not_eq_true, Bool.and_eq_false_iff] at hshared
        exact hshared
      exact sideBySide_same (independent_ofPaths hpaths hnone) (.refl _ fs) hfine
  refine ⟨fun turns => ⟨⟨fun hfine => ?_, fun hfine => ?_⟩, fun hfine => ?_, fun hfix => ?_,
    fun hfix hshared => ?_⟩, Plan.hasSharedPaths_iff, fun p hp q hq names hpnames hqnames =>
      hasSharedPaths_of_resolve hpaths hp hq hpnames hqnames⟩
  · rw [hone]
    exact (hsame turns [] hfine).1
  · rw [hone] at hfine
    exact (hsame [] turns hfine).1
  · obtain ⟨-, hfiles, hbatches⟩ := hsame turns [] hfine
    rw [hone]
    exact ⟨hfiles.symm, hbatches.symm⟩
  · exact files_of_plain hfix turns parser builtin fs
  · have hboth : (plan.fix && plan.hasSharedPaths) = true := by
      rw [hshared, Bool.and_true]
      exact hfix
    rw [runOn, if_pos hboth, Logged.value_bind, builtin, value_inSequence_cons,
      value_inSequence_cons]
    simp only [inSequence, Logged.value_pure, List.append_nil]

/-! ### An example -/

/-- A stylesheet and a script. -/
def pairPaths : List Path := [⟨"a.css"⟩, ⟨"b.js"⟩]

/-- The trees of the stylesheet, and of the script before and after its semicolon
is deleted. -/
def pairTrees : ParseTable :=
  [⟨.css, "a\x7b-moz-b:1\x7d".toList, none, ⟨false, sheetAt 0⟩⟩,
   ⟨.javascript, "a;".toList, none, ⟨false, .construct "program" 0 2
      [.construct "expression_statement" 0 2 [.construct "identifier" 0 1, .token ";" 1]]⟩⟩,
   ⟨.javascript, "a".toList, none, ⟨false, .construct "program" 0 1
      [.construct "expression_statement" 0 1 [.construct "identifier" 0 1]]⟩⟩]

/-- A directory with these files. -/
def pairFiles : Files where
  cwd := ⟨"/work"⟩
  entries := [(["work", "a.css"], .text "a\x7b-moz-b:1\x7d".toList),
    (["work", "b.js"], .text "a;".toList)]

/-- The plan to repair them. -/
def pairPlan : Plan := .ofPaths pagePreset true pairPaths

/-- Turns that the tasks of this plan take one by one. -/
def pairTurns : List Task :=
  (List.replicate maxTurns [⟨0, ⟨"a.css"⟩⟩, ⟨1, ⟨"b.js"⟩⟩]).flatten

theorem toldApart_pair : ToldApart pairFiles pairPaths := by
  have hcss : pairFiles.resolve ⟨"a.css"⟩ = .ok ["work", "a.css"] := rfl
  have hjs : pairFiles.resolve ⟨"b.js"⟩ = .ok ["work", "b.js"] := rfl
  have hmem : ∀ p ∈ pairPaths, p = ⟨"a.css"⟩ ∨ p = ⟨"b.js"⟩ := fun p hp => by
    simpa [pairPaths] using hp
  intro p hp q hq names hpnames hqnames
  rcases hmem p hp with rfl | rfl
  · rcases hmem q hq with rfl | rfl
    · exact beq_self_eq_true _
    · rw [hcss] at hpnames
      rw [hjs, ← hpnames] at hqnames
      exact absurd (Except.ok.inj hqnames) (by decide)
  · rcases hmem q hq with rfl | rfl
    · rw [hjs] at hpnames
      rw [hcss, ← hpnames] at hqnames
      exact absurd (Except.ok.inj hqnames) (by decide)
    · exact beq_self_eq_true _

theorem increasing_pairPaths : pairPaths.Pairwise fun p q => Path.compare p q = .lt := by decide

theorem paths_pairPlan : pairPlan.paths .style = [⟨"a.css"⟩] ∧
    pairPlan.paths .script = [⟨"b.js"⟩] :=
  ⟨(Plan.paths_of_pairwise increasing_pairPaths).trans (by decide),
    (Plan.paths_of_pairwise increasing_pairPaths).trans (by decide)⟩

/-- In the stylesheet the property is found. -/
theorem checkText_pairStyle :
    (style.checkText pairTrees.parser pairPlan ⟨"a.css"⟩ "a\x7b-moz-b:1\x7d".toList).value =
      .ok [complete (style.document pairTrees.parser ⟨"a.css"⟩ "a\x7b-moz-b:1\x7d".toList)
        pagePreset (prefixedAt 2)] := by
  have hvs : (style.analysis pairTrees.parser pairPlan
      (style.document pairTrees.parser ⟨"a.css"⟩ "a\x7b-moz-b:1\x7d".toList)
      (sheetAt 0)).toOption = some [prefixedAt 2] := by decide +kernel
  rw [checkText_of_analysis rfl rfl (eq_ok_of_toOption hvs), List.map_cons, List.map_nil,
    Diagnostic.sort_singleton]
  rfl

/-- In the script the semicolon is found, and deleted in one round. -/
theorem checkText_pairScript :
    (script.checkText pairTrees.parser pairPlan ⟨"b.js"⟩ "a;".toList).value =
        .ok [complete (script.document pairTrees.parser ⟨"b.js"⟩ "a;".toList) pagePreset
          ⟨.semi, "Extra semicolon.", ⟨1, 2⟩, some (.delete ⟨1, 2⟩)⟩] ∧
      (script.checkText pairTrees.parser pairPlan ⟨"b.js"⟩ "a".toList).value = .ok [] := by
  have hbefore : (script.checkText pairTrees.parser pairPlan ⟨"b.js"⟩ "a;".toList).value =
      .ok (Diagnostic.sort [complete (script.document pairTrees.parser ⟨"b.js"⟩ "a;".toList)
        pagePreset ⟨.semi, "Extra semicolon.", ⟨1, 2⟩, some (.delete ⟨1, 2⟩)⟩]) := rfl
  have hafter : (script.checkText pairTrees.parser pairPlan ⟨"b.js"⟩ "a".toList).value =
      .ok (Diagnostic.sort []) := rfl
  rw [hbefore, hafter, Diagnostic.sort_singleton, Diagnostic.sort_nil]
  exact ⟨rfl, rfl⟩

/-- One after the other, the checkers find the property and delete the semicolon. -/
theorem batches_pair :
    (batches pairTrees.parser pairPlan builtin pairFiles).value.2 =
        [⟨"style", [⟨"a.css", 1, 3, VendorPrefix.message "-moz-b".toList,
            "property-no-vendor-prefix", .error, "style"⟩], none⟩, ⟨"script", [], none⟩] ∧
      (batches pairTrees.parser pairPlan builtin pairFiles).value.1.read ⟨"a.css"⟩ =
        .ok "a\x7b-moz-b:1\x7d".toList ∧
      (batches pairTrees.parser pairPlan builtin pairFiles).value.1.read ⟨"b.js"⟩ =
        .ok "a".toList := by
  have hround : script.Rounds pairTrees.parser pairPlan ⟨"b.js"⟩ 0 "a;".toList "a".toList :=
    .last (round_of_single checkText_pairScript.1 rfl (by decide))
  have hread : pairFiles.read ⟨"b.js"⟩ = .ok "a;".toList := rfl
  have hsheet : pairFiles.read ⟨"a.css"⟩ = .ok "a\x7b-moz-b:1\x7d".toList := rfl
  have hstyle : (style.lintFile pairTrees.parser pairPlan ⟨"a.css"⟩ pairFiles).value = _ :=
    lintFix_of_no_fixes hsheet checkText_pairStyle (by decide)
  obtain ⟨hresult, hleft⟩ := lintFix_of_rounds hround (by decide) hread rfl
  have hscript : (script.lintFile pairTrees.parser pairPlan ⟨"b.js"⟩ pairFiles).value.result =
      .ok [] := hresult.trans checkText_pairScript.2
  have hkeeps := (lintFix_isChecked (hresult.trans checkText_pairScript.2)).2
  -- what each checker does with its only file
  have hstyleCheck : (style.check pairTrees.parser pairPlan pairFiles).value = _ :=
    check_singleton paths_pairPlan.1
  have hscriptCheck : (script.check pairTrees.parser pairPlan pairFiles).value = _ :=
    check_singleton paths_pairPlan.2
  rw [hstyle] at hstyleCheck
  rw [hscript] at hscriptCheck
  rw [builtin, value_batches_cons, value_batch, hstyleCheck, value_batches_cons, value_batch,
    hscriptCheck]
  refine ⟨?_, ?_, hleft⟩
  · show [Batch.ofOutcome style.name (.ok (Diagnostic.sort [_])) _,
      Batch.ofOutcome script.name (.ok (Diagnostic.sort [])) _] = _
    rw [Diagnostic.sort_singleton, Diagnostic.sort_nil]
    rfl
  · refine (hkeeps.read fun names hnames hown => ?_).trans rfl
    have hcss : pairFiles.resolve ⟨"a.css"⟩ = .ok ["work", "a.css"] := rfl
    have hjs : pairFiles.resolve ⟨"b.js"⟩ = .ok ["work", "b.js"] := rfl
    rw [hcss] at hnames
    rw [hjs, ← hnames] at hown
    exact absurd (Except.ok.inj hown) (by decide)

/-- A stylesheet and a script are repaired with their turns one by one.  The style and the
script of a page are not, even when all turns of the script come first: the property is
reported where it was before the script was repaired. -/
theorem runOn_pair_and_page :
    let turns := List.replicate maxTurns ⟨1, page⟩ ++ List.replicate maxTurns ⟨0, page⟩
    let pair := (runOn pairTurns pairTrees.parser builtin pairPlan pairFiles).value
    let paged := (runOn turns pageTrees.parser builtin (pagePlan true) (pageFiles "a;")).value
    (ToldApart pairFiles pairPaths ∧ pairPlan.hasSharedPaths = false ∧
      pair.2 = [⟨"style", [⟨"a.css", 1, 3, VendorPrefix.message "-moz-b".toList,
          "property-no-vendor-prefix", .error, "style"⟩], none⟩, ⟨"script", [], none⟩] ∧
      pair.1.read ⟨"a.css"⟩ = .ok "a\x7b-moz-b:1\x7d".toList ∧
      pair.1.read ⟨"b.js"⟩ = .ok "a".toList) ∧
    (ToldApart (pageFiles "a;") [page] ∧ (pagePlan true).hasSharedPaths = true ∧
      paged.2 = [⟨"style", [prefixedRecord 29], none⟩, ⟨"script", [], none⟩] ∧
      paged.1.read page = .ok (pageText "a")) := by
  intro turns pair paged
  constructor
  · obtain ⟨hturns, hshared, -⟩ := runOn_any_order pairTrees.parser pagePreset true pairPaths
      pairFiles toldApart_pair
    obtain ⟨hbatches, hcss, hjs⟩ := batches_pair
    obtain ⟨hfine, hsame, -⟩ := hturns pairTurns
    have hnone : Fine (batches pairTrees.parser pairPlan builtin pairFiles).value.2 := by
      rw [hbatches]
      decide
    obtain ⟨hfiles, hpair⟩ := hsame (hfine.2 hnone)
    refine ⟨toldApart_pair, ?_, hpair.trans hbatches, ?_, ?_⟩
    · rw [Bool.eq_false_iff, Ne, pairPlan, hshared]
      decide
    · exact (hfiles.read fun _ _ => trivial).trans hcss
    · exact (hfiles.read fun _ _ => trivial).trans hjs
  · obtain ⟨hturns, hshared, -⟩ := runOn_any_order pageTrees.parser pagePreset true [page]
      (pageFiles "a;") toldApart_page
    obtain ⟨hbatches, hleft, -⟩ := run_page_fix
    obtain ⟨hfine, hsame, -⟩ := hturns turns
    have hone : (run pageTrees.parser builtin (pagePlan true) (pageFiles "a;")).value =
        (batches pageTrees.parser (pagePlan true) builtin (pageFiles "a;")).value :=
      value_run_eq_batches (Plan.nodup_paths pagePreset true [page]) builtin _
    rw [leftBehind, hone] at hleft
    rw [hone] at hbatches
    have hnone : Fine (batches pageTrees.parser (pagePlan true) builtin
        (pageFiles "a;")).value.2 := by
      rw [hbatches]
      decide
    obtain ⟨hfiles, hpaged⟩ := hsame (hfine.2 hnone)
    refine ⟨toldApart_page, hshared.2 ⟨page, List.mem_cons_self, by decide⟩,
      hpaged.trans hbatches, (hfiles.read fun _ _ => trivial).trans hleft⟩

end Checker
end WebLint
