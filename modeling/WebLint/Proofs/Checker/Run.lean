import WebLint.Proofs.Checker.Rounds
import WebLint.Proofs.Diagnostic

/-!
# Checking many files

A checker takes its files one after the other and changes, when it repairs
them, no other file than the one at hand.  So what it finds in each of its
files is, in the end, what it would find there without repairing anything.

What is proved here:

* `checkText_sorted` — what is found in a file is in order, and about this
  file;
* `lintFiles_plain` — a checker that repairs nothing changes no file, and finds
  what there is to find in each of them;
* `lintFiles_fix` — a checker that repairs its files finds what it would find
  in the files it leaves behind, without repairing them;
* `check_plain`, `check_fix` — the same for all the files of a plan.
-/

namespace WebLint
namespace Checker

variable {c : Checker} {parser : Parser} {plan : Plan} {file : Path} {fs gs : Files}

/-! ## One file -/

/-- What is found in a text is in order, and about the file. -/
theorem checkText_sorted {text : Text} {found : List Diagnostic}
    (h : (c.checkText parser plan file text).value = .ok found) :
    (∀ d ∈ found, d.file = file) ∧ found.Pairwise fun a b => Diagnostic.le a b = true := by
  rcases checkText_eq_ok h with ⟨-, rfl⟩ | ⟨root, vs, -, -, -, rfl⟩
  · exact ⟨fun d hd => absurd hd List.not_mem_nil, .nil⟩
  · refine ⟨fun d hd => ?_, Diagnostic.pairwise_sort _⟩
    obtain ⟨v, -, rfl⟩ := List.mem_map.1 (List.mem_mergeSort.1 hd)
    rfl

/-- What is found in a file, if it can be checked. -/
def foundIn (c : Checker) (parser : Parser) (plan : Plan) (fs : Files) (file : Path) :
    List Diagnostic :=
  (c.lintOnly parser plan file fs).value.toOption.getD []

/-- Whether a file can be checked. -/
def IsChecked (c : Checker) (parser : Parser) (plan : Plan) (fs : Files) (file : Path) : Prop :=
  (c.lintOnly parser plan file fs).value = .ok (c.foundIn parser plan fs file)

theorem isChecked_of_eq_ok {found : List Diagnostic}
    (h : (c.lintOnly parser plan file fs).value = .ok found) :
    c.IsChecked parser plan fs file ∧ c.foundIn parser plan fs file = found := by
  have hfound : c.foundIn parser plan fs file = found := by
    rw [foundIn, h]
    rfl
  exact ⟨by rw [IsChecked, h, hfound], hfound⟩

/-- What is found in a file is in order, and about the file. -/
theorem foundIn_sorted (c : Checker) (parser : Parser) (plan : Plan) (fs : Files) (file : Path) :
    (∀ d ∈ c.foundIn parser plan fs file, d.file = file) ∧
      (c.foundIn parser plan fs file).Pairwise fun a b => Diagnostic.le a b = true := by
  cases h : (c.lintOnly parser plan file fs).value with
  | error e =>
    rw [foundIn, h]
    exact ⟨fun d hd => absurd hd List.not_mem_nil, .nil⟩
  | ok found =>
    obtain ⟨text, -, hcheck⟩ := lintOnly_eq_ok h
    rw [(isChecked_of_eq_ok h).2]
    exact checkText_sorted hcheck

/-- What is found in a file depends on what is read from it. -/
theorem lintOnly_congr (h : gs.read file = fs.read file) :
    c.lintOnly parser plan file gs = c.lintOnly parser plan file fs := by
  unfold lintOnly
  rw [h]

/-- A file that has been repaired can be checked, and what the repair finds is
found in it. -/
theorem lintFix_isChecked {found : List Diagnostic}
    (h : (c.lintFix parser plan file fs).value.result = .ok found) :
    (c.lintOnly parser plan file (c.lintFix parser plan file fs).value.files).value = .ok found ∧
      Files.Keeps (Apart fs file) fs (c.lintFix parser plan file fs).value.files := by
  obtain ⟨text, hread, hfound, hkeeps⟩ := lintFix_eq_ok h
  exact ⟨(value_lintOnly hread).trans hfound, hkeeps⟩

/-- A checker that repairs a file changes the contents of this file only, even
when it fails. -/
theorem keeps_fixRounds (rounds : Nat) (fs : Files) :
    Files.Keeps (Apart fs file) fs (c.fixRounds parser plan file rounds fs).value.files := by
  induction rounds generalizing fs with
  | zero => exact .refl _ fs
  | succ rounds ih =>
    cases hread : fs.read file with
    | error e =>
      rw [value_fixRounds_of_error hread]
      exact .refl _ fs
    | ok text =>
      cases hcheck : (c.checkText parser plan file text).value with
      | error e =>
        rw [value_fixRounds_of_checkText hread hcheck]
        exact .refl _ fs
      | ok found =>
        have hround : c.Round parser plan file text
            (Fixing.apply (Fixing.fixesOf found) text) := ⟨found, hcheck, rfl⟩
        have hsaved := keeps_saved hread (Fixing.apply (Fixing.fixesOf found) text).text
        cases hrefused : refused file text (Fixing.apply (Fixing.fixesOf found) text).text fs with
        | some e =>
          rw [fixRounds_of_refused hread hround hrefused]
          exact .refl _ fs
        | none =>
          rw [fixRounds_succ hread hround hrefused]
          split
          · have hrest := ih (saved file text (Fixing.apply (Fixing.fixesOf found) text).text fs)
            exact hsaved.trans ⟨hrest.toAlike, fun names hnames =>
              hrest.file names (by rwa [Apart, Files.resolve_congr hsaved.toAlike])⟩
          · exact hsaved

/-- A checker changes the contents of its file only, even when it fails. -/
theorem keeps_lintFile (fs : Files) :
    Files.Keeps (Apart fs file) fs (c.lintFile parser plan file fs).value.files := by
  rw [lintFile]
  split
  · exact keeps_fixRounds maxRounds fs
  · exact .refl _ fs

/-! ## Some files -/

/-- A value that is made from another one is there when the other one is. -/
theorem map_eq_ok_iff {ε α β : Type} {x : Except ε α} {f : α → β} {b : β} :
    x.map f = .ok b ↔ ∃ a, x = .ok a ∧ f a = b := by
  cases x with
  | error e => simp [Except.map]
  | ok a => simp [Except.map]

/-- Whether two paths do not lead to the same file. -/
def Separate (fs : Files) (p q : Path) : Prop :=
  ∀ names, fs.resolve p = .ok names → Apart fs q names

theorem value_lintFiles_cons (file : Path) (rest : List Path) :
    (c.lintFiles parser plan (file :: rest) fs).value =
      match (c.lintFile parser plan file fs).value.result with
      | .error e => ⟨(c.lintFile parser plan file fs).value.files, .error e⟩
      | .ok found =>
        ⟨(c.lintFiles parser plan rest (c.lintFile parser plan file fs).value.files).value.files,
          (c.lintFiles parser plan rest
            (c.lintFile parser plan file fs).value.files).value.result.map (found ++ ·)⟩ := by
  rw [lintFiles, Logged.value_bind]
  cases (c.lintFile parser plan file fs).value.result with
  | error e => rfl
  | ok found => rfl

/-- Some files are checked successfully when the first one is and the others
are. -/
theorem lintFiles_cons_eq_ok {file : Path} {rest : List Path} {all : List Diagnostic}
    (h : (c.lintFiles parser plan (file :: rest) fs).value.result = .ok all) :
    ∃ first others, (c.lintFile parser plan file fs).value.result = .ok first ∧
      (c.lintFiles parser plan rest
        (c.lintFile parser plan file fs).value.files).value.result = .ok others ∧
      all = first ++ others ∧
      (c.lintFiles parser plan (file :: rest) fs).value.files =
        (c.lintFiles parser plan rest
          (c.lintFile parser plan file fs).value.files).value.files := by
  rw [value_lintFiles_cons] at h ⊢
  cases hfirst : (c.lintFile parser plan file fs).value.result with
  | error e =>
    rw [hfirst] at h
    cases h
  | ok first =>
    rw [hfirst] at h
    obtain ⟨others, hothers, hall⟩ := map_eq_ok_iff.1 h
    exact ⟨first, others, rfl, hothers, hall.symm, rfl⟩

/-- A checker that repairs nothing changes no file, and finds in each of them
what there is to find. -/
theorem lintFiles_plain (hplain : plan.fix = false) (paths : List Path) :
    (c.lintFiles parser plan paths fs).value.files = fs ∧
      ∀ all, (c.lintFiles parser plan paths fs).value.result = .ok all ↔
        (∀ p ∈ paths, c.IsChecked parser plan fs p) ∧
          all = paths.flatMap (c.foundIn parser plan fs) := by
  have hfile : ∀ p, (c.lintFile parser plan p fs).value =
      ⟨fs, (c.lintOnly parser plan p fs).value⟩ := by
    intro p
    rw [lintFile, hplain]
    rfl
  induction paths with
  | nil =>
    refine ⟨rfl, fun all => ?_⟩
    show (Except.ok [] : Except Failure (List Diagnostic)) = .ok all ↔ _
    simp [eq_comm]
  | cons p paths ih =>
    obtain ⟨hfiles, hresult⟩ := ih
    rw [value_lintFiles_cons, hfile]
    cases hp : (c.lintOnly parser plan p fs).value with
    | error e =>
      refine ⟨rfl, fun all => ?_⟩
      constructor
      · intro h
        cases h
      · intro h
        have hchecked := h.1 p List.mem_cons_self
        rw [IsChecked, hp] at hchecked
        cases hchecked
    | ok found =>
      obtain ⟨hchecked, hfound⟩ := isChecked_of_eq_ok hp
      refine ⟨hfiles, fun all => ?_⟩
      rw [List.forall_mem_cons, List.flatMap_cons, hfound]
      constructor
      · intro h
        obtain ⟨others, hothers, hall⟩ := map_eq_ok_iff.1 h
        obtain ⟨hrest, rfl⟩ := (hresult others).1 hothers
        exact ⟨⟨hchecked, hrest⟩, hall.symm⟩
      · rintro ⟨⟨-, hrest⟩, rfl⟩
        exact map_eq_ok_iff.2 ⟨_, (hresult _).2 ⟨hrest, rfl⟩, rfl⟩

/-- **A checker that repairs its files finds what is found in the files it
leaves behind.**  No other file changes. -/
theorem lintFiles_fix (hfix : plan.fix = true) {paths : List Path}
    (hseparate : paths.Pairwise (Separate fs)) {all : List Diagnostic}
    (h : (c.lintFiles parser plan paths fs).value.result = .ok all) :
    Files.Keeps (fun names => ∀ p ∈ paths, Apart fs p names) fs
        (c.lintFiles parser plan paths fs).value.files ∧
      (∀ p ∈ paths, c.IsChecked parser plan (c.lintFiles parser plan paths fs).value.files p) ∧
      all = paths.flatMap
        (c.foundIn parser plan (c.lintFiles parser plan paths fs).value.files) := by
  induction paths generalizing fs all with
  | nil => exact ⟨.refl _ _, fun p hp => absurd hp List.not_mem_nil, (Except.ok.inj h).symm⟩
  | cons p paths ih =>
    obtain ⟨hp, hpaths⟩ := List.pairwise_cons.1 hseparate
    obtain ⟨first, others, hfirst, hothers, rfl, hfiles⟩ := lintFiles_cons_eq_ok h
    have hlint : c.lintFile parser plan p fs = c.lintFix parser plan p fs := by
      rw [lintFile, if_pos hfix]
    rw [hlint] at hfirst hothers hfiles
    obtain ⟨hchecked, hkeeps⟩ := lintFix_isChecked hfirst
    -- the other paths lead where they led before the first file was repaired
    have hresolve := Files.resolve_congr hkeeps.toAlike
    have hseparate' : paths.Pairwise
        (Separate (c.lintFix parser plan p fs).value.files) := by
      refine hpaths.imp fun {q r} hqr names hnames => ?_
      rw [Apart, hresolve]
      rw [hresolve] at hnames
      exact hqr names hnames
    obtain ⟨hkeeps', hchecked', rfl⟩ := ih hseparate' hothers
    rw [hfiles]
    have hread := hkeeps'.read (p := p) fun names hnames q hq => by
      rw [Apart, hresolve]
      rw [hresolve] at hnames
      exact hp q hq names hnames
    rw [← lintOnly_congr hread] at hchecked
    obtain ⟨hfirst', hfound⟩ := isChecked_of_eq_ok hchecked
    refine ⟨⟨hkeeps.toAlike.trans hkeeps'.toAlike, fun names hnames => ?_⟩,
      List.forall_mem_cons.2 ⟨hfirst', hchecked'⟩, ?_⟩
    · rw [hkeeps'.file names fun q hq => ?_, hkeeps.file names (hnames p List.mem_cons_self)]
      rw [Apart, hresolve]
      exact hnames q (List.mem_cons_of_mem p hq)
    · rw [List.flatMap_cons, hfound]

/-! ## All files of a plan -/

/-- A checker changes no name and no directory, even when it fails. -/
theorem alike_check (fs : Files) : Files.Alike fs (c.check parser plan fs).value.files := by
  have hfiles : ∀ (paths : List Path) (fs : Files),
      Files.Alike fs (c.lintFiles parser plan paths fs).value.files := by
    intro paths
    induction paths with
    | nil => exact .refl
    | cons p paths ih =>
      intro fs
      rw [value_lintFiles_cons]
      split
      · exact (keeps_lintFile fs).toAlike
      · exact (keeps_lintFile fs).toAlike.trans (ih _)
  exact hfiles _ fs

/-- What is found in increasing files is in order. -/
theorem sort_found {paths : List Path} (h : paths.Pairwise fun p q => Path.compare p q = .lt) :
    Diagnostic.sort (paths.flatMap (c.foundIn parser plan fs)) =
      paths.flatMap (c.foundIn parser plan fs) :=
  Diagnostic.sort_flatMap h (fun p _ => (foundIn_sorted c parser plan fs p).1)
    fun p _ => (foundIn_sorted c parser plan fs p).2

/-- A checker that repairs nothing finds what there is to find in its files, in
the order of the files. -/
theorem check_plain (hplain : plan.fix = false)
    (hpaths : (plan.paths c.language).Pairwise fun p q => Path.compare p q = .lt) :
    (c.check parser plan fs).value.files = fs ∧
      ∀ all, (c.check parser plan fs).value.result = .ok all ↔
        (∀ p ∈ plan.paths c.language, c.IsChecked parser plan fs p) ∧
          all = (plan.paths c.language).flatMap (c.foundIn parser plan fs) := by
  obtain ⟨hfiles, hresult⟩ := lintFiles_plain hplain (plan.paths c.language)
  refine ⟨hfiles, fun all => ?_⟩
  constructor
  · intro h
    obtain ⟨found, hfound, rfl⟩ := map_eq_ok_iff.1 h
    obtain ⟨hchecked, rfl⟩ := (hresult found).1 hfound
    exact ⟨hchecked, sort_found hpaths⟩
  · rintro ⟨hchecked, rfl⟩
    exact map_eq_ok_iff.2 ⟨_, (hresult _).2 ⟨hchecked, rfl⟩, sort_found hpaths⟩

/-- A checker that repairs its files finds what there is to find in the files it
leaves behind, in the order of the files. -/
theorem check_fix (hfix : plan.fix = true)
    (hpaths : (plan.paths c.language).Pairwise fun p q => Path.compare p q = .lt)
    (hseparate : (plan.paths c.language).Pairwise (Separate fs)) {all : List Diagnostic}
    (h : (c.check parser plan fs).value.result = .ok all) :
    Files.Keeps (fun names => ∀ p ∈ plan.paths c.language, Apart fs p names) fs
        (c.check parser plan fs).value.files ∧
      (∀ p ∈ plan.paths c.language,
        c.IsChecked parser plan (c.check parser plan fs).value.files p) ∧
      all = (plan.paths c.language).flatMap
        (c.foundIn parser plan (c.check parser plan fs).value.files) := by
  obtain ⟨found, hfound, rfl⟩ := map_eq_ok_iff.1 h
  obtain ⟨hkeeps, hchecked, hall⟩ := lintFiles_fix hfix hseparate hfound
  refine ⟨hkeeps, hchecked, ?_⟩
  rw [hall]
  exact sort_found hpaths

end Checker
end WebLint
