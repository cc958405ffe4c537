import WebLint.Proofs.Checker.Idempotence
import WebLint.Proofs.Checker.Order
import WebLint.Proofs.Checker.SideBySide
import WebLint.Proofs.Checker.Spelling

/-!
# All files or none

A single worker takes the files of a checker one after the other, in the order of their
paths.  If something comes of each of them, the lists of what is found are put one behind the
other, and sorting them does not change anything.  If one of them fails there is nothing to
report at all, not even of the files before it.  Several workers come to the same, except that
of several files that fail any may be the one they tell of.

What is proved here:

* `lintFiles_eq_ok_iff`, `lintFiles_eq_error_iff` — what comes of some files is decided by
  what comes of each;
* `pairwise_flatten` — what is found in increasing files is in order;
* `outcomes_eq_map` — files that do not get in each other's way are checked as if each were
  alone;
* `filter_check` — what is found in one file of many, however its path is spelled;
* `sideBySide_single` — what comes of the files when several workers take turns;
* `check_all_or_nothing` — all this for the files of a plan.
-/

namespace WebLint
namespace Checker

variable {c : Checker} {parser : Parser} {plan : Plan} {files : List Path} {fs gs : Files}

/-! ## One file after the other -/

/-- What comes of each of some files when a checker takes them one after the other, whether or
not it fails on those before. -/
def outcomes (c : Checker) (parser : Parser) (plan : Plan) :
    List Path → Files → List (Except Failure (List Diagnostic))
  | [], _ => []
  | file :: rest, fs =>
    (c.lintFile parser plan file fs).value.result ::
      outcomes c parser plan rest (c.lintFile parser plan file fs).value.files

/-- Some files are checked successfully when each of them is, and what is found in them is
what is found in the first, then in the second, and so on. -/
theorem lintFiles_eq_ok_iff {all : List Diagnostic} :
    (c.lintFiles parser plan files fs).value.result = .ok all ↔
      ∃ found : List (List Diagnostic),
        c.outcomes parser plan files fs = found.map .ok ∧ all = found.flatten := by
  induction files generalizing fs all with
  | nil =>
    show (Except.ok [] : Except Failure (List Diagnostic)) = .ok all ↔ _
    rw [outcomes]
    constructor
    · intro h
      exact ⟨[], rfl, (Except.ok.inj h).symm⟩
    · rintro ⟨found, hnil, rfl⟩
      rw [List.map_eq_nil_iff.1 hnil.symm]
      rfl
  | cons file files ih =>
    rw [outcomes]
    constructor
    · intro h
      obtain ⟨first, others, hfirst, hothers, rfl, -⟩ := lintFiles_cons_eq_ok h
      obtain ⟨found, hfound, rfl⟩ := ih.1 hothers
      exact ⟨first :: found, by rw [hfirst, hfound, List.map_cons], rfl⟩
    · rintro ⟨found, hfound, rfl⟩
      obtain ⟨first, found, rfl, hfirst, hothers⟩ := List.map_eq_cons_iff.1 hfound.symm
      rw [value_lintFiles_cons, ← hfirst]
      exact map_eq_ok_iff.2 ⟨_, ih.2 ⟨found, hothers.symm, rfl⟩, rfl⟩

/-- A value that is made from another one fails as the other one does. -/
theorem map_eq_error_iff {ε α β : Type} {x : Except ε α} {f : α → β} {e : ε} :
    x.map f = .error e ↔ x = .error e := by
  cases x with
  | error e' => simp [Except.map]
  | ok a => simp [Except.map]

/-- Some files fail as the first of them that fails does. -/
theorem lintFiles_eq_error_iff {e : Failure} :
    (c.lintFiles parser plan files fs).value.result = .error e ↔
      ∃ (found : List (List Diagnostic)) (rest : List _),
        c.outcomes parser plan files fs = found.map .ok ++ .error e :: rest := by
  induction files generalizing fs with
  | nil =>
    show (Except.ok [] : Except Failure (List Diagnostic)) = .error e ↔ _
    simp [outcomes]
  | cons file files ih =>
    rw [outcomes, value_lintFiles_cons]
    cases hfirst : (c.lintFile parser plan file fs).value.result with
    | error e' =>
      constructor
      · intro h
        exact ⟨[], _, by rw [Except.error.inj h]; rfl⟩
      · rintro ⟨found, rest, heq⟩
        cases found with
        | nil => exact congrArg Except.error (Except.error.inj (List.cons.inj heq).1)
        | cons first found => cases (List.cons.inj heq).1
    | ok first =>
      constructor
      · intro h
        obtain ⟨found, rest, hrest⟩ := ih.1 (map_eq_error_iff.1 h)
        exact ⟨first :: found, rest, by rw [hrest]; rfl⟩
      · rintro ⟨found, rest, heq⟩
        cases found with
        | nil => cases (List.cons.inj heq).1
        | cons first found =>
          exact map_eq_error_iff.2 (ih.2 ⟨found, rest, (List.cons.inj heq).2⟩)

/-! ## The order of what is found -/

/-- What is found in increasing files is about these files, and in order. -/
theorem pairwise_flatten (hfiles : files.Pairwise fun p q => Path.compare p q = .lt)
    {found : List (List Diagnostic)} (h : c.outcomes parser plan files fs = found.map .ok) :
    (∀ d ∈ found.flatten, d.file ∈ files) ∧
      found.flatten.Pairwise fun a b => Diagnostic.le a b = true := by
  induction files generalizing fs found with
  | nil =>
    obtain rfl := List.map_eq_nil_iff.1 h.symm
    exact ⟨fun d hd => absurd hd List.not_mem_nil, .nil⟩
  | cons file files ih =>
    obtain ⟨hfirst, hrest⟩ := List.pairwise_cons.1 hfiles
    obtain ⟨first, found, rfl, hlint, hothers⟩ := List.map_eq_cons_iff.1 h.symm
    obtain ⟨hfound, hsorted⟩ := ih hrest hothers.symm
    obtain ⟨text, hcheck⟩ := lintFile_eq_ok hlint.symm
    obtain ⟨habout, hfirstSorted⟩ := checkText_sorted hcheck
    rw [List.flatten_cons]
    refine ⟨fun d hd => ?_, List.pairwise_append.2 ⟨hfirstSorted, hsorted, fun a ha b hb => ?_⟩⟩
    · rcases List.mem_append.1 hd with hd | hd
      · rw [habout d hd]
        exact List.mem_cons_self
      · exact List.mem_cons_of_mem file (hfound d hd)
    · refine Diagnostic.le_of_file_lt ?_
      rw [habout a ha]
      exact hfirst b.file (hfound b hb)

/-! ## Each file as if it were alone -/

/-- A checker leaves a file alone when it repairs nothing, or another file. -/
theorem read_lintFile {p q : Path} (h : plan.fix = false ∨ Separate fs p q) :
    (c.lintFile parser plan p fs).value.files.read q = fs.read q := by
  rcases h with hfix | hseparate
  · rw [lintFile, if_neg (by simp [hfix])]
    rfl
  · exact (keeps_lintFile fs).read fun names hq hp => hseparate names hp hq

/-- Files that do not get in each other's way are checked as if each were alone. -/
theorem outcomes_eq_map (h : plan.fix = false ∨ files.Pairwise (Separate fs)) :
    c.outcomes parser plan files fs =
      files.map fun p => (c.lintFile parser plan p fs).value.result := by
  have hpairs : files.Pairwise fun p q => plan.fix = false ∨ Separate fs p q := by
    rcases h with hfix | hseparate
    · exact List.pairwise_of_forall fun _ _ => Or.inl hfix
    · exact hseparate.imp Or.inr
  -- the files that are still to come hold what they held at first
  suffices hgeneral : ∀ gs, Files.Alike fs gs → (∀ q ∈ files, gs.read q = fs.read q) →
      c.outcomes parser plan files gs =
        files.map fun p => (c.lintFile parser plan p fs).value.result from
    hgeneral fs (.refl fs) fun _ _ => rfl
  clear h
  induction files with
  | nil => exact fun _ _ _ => rfl
  | cons p files ih =>
    intro gs halike hread
    obtain ⟨hp, hfiles⟩ := List.pairwise_cons.1 hpairs
    obtain ⟨hpread, hreads⟩ := List.forall_mem_cons.1 hread
    have hfirst : (c.lintFile parser plan p gs).value.result =
        (c.lintFile parser plan p fs).value.result :=
      (lintFile_congr ⟨hpread, Files.refusal_congr halike p⟩).1
    have hkeeps : Files.Keeps (Apart gs p) gs (c.lintFile parser plan p gs).value.files :=
      keeps_lintFile gs
    have hrest := ih hfiles _ (halike.trans hkeeps.toAlike) fun q hq => by
      refine (read_lintFile ((hp q hq).imp_right fun hseparate names hpnames => ?_)).trans
        (hreads q hq)
      rw [Files.resolve_congr halike] at hpnames
      rw [Apart, Files.resolve_congr halike]
      exact hseparate names hpnames
    rw [outcomes, hfirst, hrest, List.map_cons]

/-! ## One file of many -/

/-- Of the diagnostics in increasing files those about one file are what is found in it. -/
theorem filter_flatMap_foundIn {q : Path}
    (hfiles : files.Pairwise fun p q => Path.compare p q = .lt) (hq : q ∈ files) :
    (files.flatMap (c.foundIn parser plan fs)).filter (fun d => d.file.same q) =
      c.foundIn parser plan fs q := by
  obtain ⟨before, after, rfl⟩ := List.append_of_mem hq
  obtain ⟨-, hafter, hbefore⟩ := List.pairwise_append.1 hfiles
  have hother : ∀ {ps : List Path}, (∀ p ∈ ps, p.same q = false) →
      (ps.flatMap (c.foundIn parser plan fs)).filter (fun d => d.file.same q) = [] := by
    intro ps hps
    refine List.filter_eq_nil_iff.2 fun d hd => ?_
    obtain ⟨p, hp, hd⟩ := List.mem_flatMap.1 hd
    rw [(foundIn_sorted c parser plan fs p).1 d hd, hps p hp]
    exact Bool.false_ne_true
  have hself : (c.foundIn parser plan fs q).filter (fun d => d.file.same q) =
      c.foundIn parser plan fs q := by
    refine List.filter_eq_self.2 fun d hd => ?_
    rw [(foundIn_sorted c parser plan fs q).1 d hd, Path.same, beq_self_eq_true]
  rw [List.flatMap_append, List.flatMap_cons, List.filter_append, List.filter_append, hself,
    hother fun p hp => ?_, hother fun p hp => ?_, List.nil_append, List.append_nil]
  · refine Bool.eq_false_iff.2 fun hsame => ?_
    have hlt := (List.pairwise_cons.1 hafter).1 p hp
    rw [Path.compare_eq_iff_same.2 (Path.same_comm hsame)] at hlt
    cases hlt
  · refine Bool.eq_false_iff.2 fun hsame => ?_
    have hlt := hbefore p hp q List.mem_cons_self
    rw [Path.compare_eq_iff_same.2 hsame] at hlt
    cases hlt

/-- Of what a checker that repairs nothing finds, what is about one file is what it finds in
this file in another run, by whatever path it goes there. -/
theorem filter_check (hc : c ∈ builtin) {preset : Preset} {paths paths' : List Path}
    {all all' : List Diagnostic}
    (h : (c.check parser (.ofPaths preset false paths) fs).value.result = .ok all)
    (h' : (c.check parser (.ofPaths preset false paths') fs).value.result = .ok all')
    {p q : Path} (hp : p ∈ (Plan.ofPaths preset false paths).paths c.language)
    (hq : q ∈ (Plan.ofPaths preset false paths').paths c.language) (hsame : p.same q = true) :
    (all.filter fun d => d.file.same p).map (.about q) = all'.filter fun d => d.file.same q := by
  have hpaths : ∀ paths, ((Plan.ofPaths preset false paths).paths c.language).Pairwise
      fun p q => Path.compare p q = .lt := fun paths => Plan.pairwise_paths preset false paths _
  obtain ⟨hchecked, rfl⟩ := ((check_plain rfl (hpaths paths)).2 all).1 h
  obtain ⟨hchecked', rfl⟩ := ((check_plain rfl (hpaths paths')).2 all').1 h'
  rw [filter_flatMap_foundIn (hpaths paths) hp, filter_flatMap_foundIn (hpaths paths') hq]
  obtain ⟨text, hread, hfound⟩ := lintOnly_eq_ok (hchecked p hp)
  obtain ⟨text', hread', hfound'⟩ := lintOnly_eq_ok (hchecked' q hq)
  have hother : (c.checkText parser (.ofPaths preset false paths') q text).value =
      .ok ((c.foundIn parser (.ofPaths preset false paths) fs p).map (.about q)) :=
    checkText_of_same hc hsame hfound
  rw [← Files.read_of_same hsame hread hread', hother] at hfound'
  exact Except.ok.inj hfound'

/-! ## Several workers -/

/-- When several workers take turns, what comes of a checker is what comes of it when a single
one does the work; only when it fails it may be for another of its files. -/
theorem sideBySide_single (hnodup : ∀ language, (plan.paths language).Nodup)
    (hind : (plan.paths c.language).Pairwise (Bypass plan fs)) (turns : List Task) :
    let batch := (c.batch parser plan fs).value.2
    let together := (sideBySide turns parser [c] plan fs).value.2
    (batch.failure = none → together = [batch]) ∧
      (batch.failure ≠ none → ∃ p ∈ plan.paths c.language, ∃ e,
        (c.lintFile parser plan p fs).value.result = .error e ∧
          together = [⟨c.name, [], some e⟩]) := by
  intro batch together
  have hcomes : ∀ turns, ∃ b, (sideBySide turns parser [c] plan fs).value.2 = [b] ∧
      Comes parser plan fs c b := by
    intro turns
    obtain ⟨hforall, -⟩ := sideBySide_comes turns parser (independent_single hind)
    generalize (sideBySide turns parser [c] plan fs).value.2 = bs at hforall
    cases hforall with
    | cons hb hnil =>
      cases hnil
      exact ⟨_, rfl, hb⟩
  obtain ⟨b, htogether, hb⟩ : ∃ b, together = [b] ∧ Comes parser plan fs c b := hcomes turns
  have hbatch : Comes parser plan fs c batch := by
    obtain ⟨b', hone, hb'⟩ := hcomes []
    rw [value_sideBySide_nil hnodup] at hone
    rw [show batch = b' from List.singleton_inj.1 hone]
    exact hb'
  refine ⟨fun hnone => ?_, fun hfailed => ?_⟩
  · obtain ⟨hok, hbatch⟩ := hbatch.succeeds hnone
    rw [htogether, hb.eq_batchAlone hok, ← hbatch]
  · rcases hb with ⟨hok, -⟩ | ⟨p, hp, e, herror, rfl⟩
    · exact absurd (by rw [hbatch.eq_batchAlone hok]; rfl) hfailed
    · exact ⟨p, hp, e, herror, htogether⟩

/-! ## All files of a plan -/

/-- **A checker checks all of its files or none.**  A single worker takes the files of a plan
in the order of their paths.  When each of them can be checked, or repaired, the checker yields
what is found in the first, then in the second, and so on, and sorting this changes nothing;
otherwise it fails as the first file does that cannot, and its batch has no records.  When
nothing is repaired, or when no two of the files are one, what comes of each is what would come
of it alone; and whatever turns several workers take, the batch is the same, but for which of
the files that fail it tells of.  When nothing is repaired, what is found in a file is the same
whatever other files are checked with it. -/
theorem check_all_or_nothing (c : Checker) (hc : c ∈ builtin) (parser : Parser) (preset : Preset)
    (fix : Bool) (paths : List Path) (fs : Files) :
    let plan := Plan.ofPaths preset fix paths
    let files := plan.paths c.language
    let comes := c.outcomes parser plan files fs
    let result := (c.check parser plan fs).value.result
    let batch := (c.batch parser plan fs).value.2
    files.Pairwise (fun p q => Path.compare p q = .lt) ∧
      (∀ all, result = .ok all ↔ ∃ found : List (List Diagnostic),
        comes = found.map .ok ∧ all = found.flatten) ∧
      (∀ e, result = .error e ↔ ∃ (found : List (List Diagnostic)) (rest : List _),
        comes = found.map .ok ++ .error e :: rest) ∧
      (∀ e, result = .error e → batch.records = [] ∧ batch.failure = some e) ∧
      (fix = false ∨ files.Pairwise (Separate fs) →
        comes = files.map fun p => (c.lintFile parser plan p fs).value.result) ∧
      (fix = false ∨ files.Pairwise (Separate fs) → ∀ turns : List Task,
        let together := (sideBySide turns parser [c] plan fs).value.2
        ((∃ all, result = .ok all) → together = [batch]) ∧
          (∀ e, result = .error e → ∃ p ∈ files, ∃ e',
            (c.lintFile parser plan p fs).value.result = .error e' ∧
              together = [⟨c.name, [], some e'⟩])) ∧
      (fix = false → ∀ paths' all all', result = .ok all →
        (c.check parser (.ofPaths preset false paths') fs).value.result = .ok all' →
        ∀ p ∈ files, ∀ q ∈ (Plan.ofPaths preset false paths').paths c.language, p.same q = true →
          (all.filter fun d => d.file.same p).map (.about q) =
            all'.filter fun d => d.file.same q) := by
  intro plan files comes result batch
  have hfiles : files.Pairwise fun p q => Path.compare p q = .lt :=
    Plan.pairwise_paths preset fix paths c.language
  have hresult : result = (c.lintFiles parser plan files fs).value.result.map Diagnostic.sort := rfl
  have hbatch : batch = Batch.ofOutcome c.name result (Diagnostic.toRecord (some fs.cwd)) := rfl
  refine ⟨hfiles, fun all => ?_, fun e => ?_, fun e herror => ?_,
    fun hind => outcomes_eq_map hind, fun hind turns => ?_, ?_⟩
  · -- what is found is in order already
    have hsort : ∀ found : List (List Diagnostic), comes = found.map .ok →
        Diagnostic.sort found.flatten = found.flatten := fun found hfound =>
      List.mergeSort_of_pairwise (pairwise_flatten hfiles hfound).2
    rw [hresult, map_eq_ok_iff]
    constructor
    · rintro ⟨found, hfound, rfl⟩
      obtain ⟨lists, hlists, rfl⟩ := lintFiles_eq_ok_iff.1 hfound
      exact ⟨lists, hlists, hsort lists hlists⟩
    · rintro ⟨lists, hlists, rfl⟩
      exact ⟨_, lintFiles_eq_ok_iff.2 ⟨lists, hlists, rfl⟩, hsort lists hlists⟩
  · rw [hresult, map_eq_error_iff, lintFiles_eq_error_iff]
  · rw [hbatch, herror]
    exact ⟨rfl, rfl⟩
  · have hpairs : files.Pairwise (Bypass plan fs) := by
      rcases hind with hfix | hseparate
      · exact List.pairwise_of_forall fun _ _ => Or.inl hfix
      · exact hseparate.imp Or.inr
    obtain ⟨hok, hfailed⟩ := sideBySide_single (Plan.nodup_paths preset fix paths) hpairs turns
    refine ⟨fun ⟨all, hall⟩ => hok ?_, fun e herror => hfailed ?_⟩
    · show batch.failure = none
      rw [hbatch, hall]
      rfl
    · show batch.failure ≠ none
      rw [hbatch, herror]
      exact Option.some_ne_none e
  · rintro rfl paths' all all' hall hall' p hp q hq hsame
    exact filter_check hc hall hall' hp hq hsame

/-! ### Two scripts -/

/-- A directory with two scripts, one of which has a semicolon too many. -/
def twoScripts : Files where
  cwd := ⟨"/work"⟩
  entries := [(["work", "a.js"], .text strayText), (["work", "b.js"], .text strayTwice)]

/-- The path of the first script. -/
def firstPath : Path := ⟨"/work/a.js"⟩

/-- The same path, and the one of the second script. -/
def bothPaths : List Path := [⟨"/work//a.js"⟩, ⟨"/work/b.js"⟩]

/-- What is found in the first script. -/
def foundBy (path : Path) : Diagnostic := (redundant strayText 1).about path

theorem outcomes_firstPath :
    script.outcomes strayTrees.parser (.ofPaths semicolonPreset false [firstPath]) [firstPath]
      twoScripts = [[foundBy firstPath]].map .ok := by
  have hvalue : script.outcomes strayTrees.parser (.ofPaths semicolonPreset false [firstPath])
      [firstPath] twoScripts = [.ok (Diagnostic.sort [foundBy firstPath])] := rfl
  rw [hvalue, Diagnostic.sort_singleton]
  rfl

theorem outcomes_bothPaths :
    script.outcomes strayTrees.parser (.ofPaths semicolonPreset false bothPaths) bothPaths
      twoScripts = [[foundBy ⟨"/work//a.js"⟩], []].map .ok := by
  have hvalue : script.outcomes strayTrees.parser (.ofPaths semicolonPreset false bothPaths)
      bothPaths twoScripts =
        [.ok (Diagnostic.sort [foundBy ⟨"/work//a.js"⟩]), .ok (Diagnostic.sort [])] := rfl
  rw [hvalue, Diagnostic.sort_singleton, Diagnostic.sort_nil]
  rfl

/-- The same script, checked alone and along with the other one, by two spellings of its
path. -/
theorem check_twoScripts :
    let alone := script.check strayTrees.parser (.ofPaths semicolonPreset false [firstPath])
      twoScripts
    let together := script.check strayTrees.parser (.ofPaths semicolonPreset false bothPaths)
      twoScripts
    script ∈ builtin ∧ alone.value.result = .ok [foundBy firstPath] ∧
      together.value.result = .ok [foundBy ⟨"/work//a.js"⟩] ∧
      ([foundBy firstPath].filter fun d => d.file.same firstPath).map (.about ⟨"/work//a.js"⟩) =
        [foundBy ⟨"/work//a.js"⟩].filter fun d => d.file.same ⟨"/work//a.js"⟩ := by
  intro alone together
  have hc : script ∈ builtin := mem_builtin.2 (Or.inr rfl)
  have hfirst : (Plan.ofPaths semicolonPreset false [firstPath]).paths script.language =
      [firstPath] := (Plan.paths_of_pairwise (by decide)).trans (by decide)
  have hboth : (Plan.ofPaths semicolonPreset false bothPaths).paths script.language =
      bothPaths := (Plan.paths_of_pairwise (by decide)).trans (by decide)
  obtain ⟨-, hok, -, -, -, -, hsame⟩ := check_all_or_nothing script hc strayTrees.parser
    semicolonPreset false [firstPath] twoScripts
  obtain ⟨-, hok', -⟩ := check_all_or_nothing script hc strayTrees.parser semicolonPreset false
    bothPaths twoScripts
  rw [hfirst] at hok hsame
  rw [hboth] at hok'
  have halone := (hok [foundBy firstPath]).2 ⟨_, outcomes_firstPath, rfl⟩
  have htogether := (hok' [foundBy ⟨"/work//a.js"⟩]).2 ⟨_, outcomes_bothPaths, rfl⟩
  refine ⟨hc, halone, htogether, hsame rfl bothPaths _ _ halone htogether firstPath
    List.mem_cons_self ⟨"/work//a.js"⟩ ?_ (by decide)⟩
  rw [hboth]
  exact List.mem_cons_self

end Checker
end WebLint
