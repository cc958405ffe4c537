import WebLint.Proofs.Checker.SingleWorker
import WebLint.Proofs.Path.Names
import WebLint.Proofs.Plan
import WebLint.Proofs.Report
import WebLint.Proofs.Tree

/-!
# Repairing, and checking what has been repaired

A run that repairs its files reports what each checker finds after its own
repairs.  The scripts in a file of markup are repaired after its stylesheets
have been reported on, and so the report may be about a text that is not there
any more.  This file says when it is about the files that are left.

What is proved here:

* `recordsOf_eq_of_not_isMarkup` — stylesheets are not touched by the repair of
  scripts;
* `filter_recordsIn` — files are told apart by the names they have in a
  report;
* `report_rerun_iff` — a run that repairs its files reports what a mere check of
  the files it leaves reports, exactly when the repair of scripts changes nothing
  that is reported of the stylesheets in markup;
* `report_shiftedColumn` — which it may do.
-/

namespace WebLint

namespace Checker

variable {c : Checker} {parser : Parser} {plan : Plan} {file : Path} {fs gs : Files}

/-! ## Records -/

/-- The record of a diagnostic that a checker finds. -/
def recordOf (c : Checker) (fs : Files) (d : Diagnostic) : Record :=
  { d.toRecord (some fs.cwd) with producer := c.name }

/-- What a checker reports of a file as it is. -/
def recordsOf (c : Checker) (parser : Parser) (plan : Plan) (fs : Files) (file : Path) :
    Except Failure (List Record) :=
  (c.lintOnly parser plan file fs).value.map fun found => found.map (c.recordOf fs)

/-- The records of what is found in some files, in order. -/
def recordsIn (c : Checker) (parser : Parser) (plan : Plan) (fs : Files) (paths : List Path) :
    List Record :=
  paths.flatMap fun p => (c.foundIn parser plan fs p).map (c.recordOf fs)

theorem recordsOf_of_isChecked (h : c.IsChecked parser plan fs file) :
    c.recordsOf parser plan fs file =
      .ok ((c.foundIn parser plan fs file).map (c.recordOf fs)) := by
  rw [recordsOf, h]
  rfl

/-- A file of which something is reported can be checked. -/
theorem isChecked_of_recordsOf {rs : List Record} (h : c.recordsOf parser plan fs file = .ok rs) :
    c.IsChecked parser plan fs file ∧ (c.foundIn parser plan fs file).map (c.recordOf fs) = rs := by
  obtain ⟨found, hfound, hrs⟩ := map_eq_ok_iff.1 h
  obtain ⟨hchecked, rfl⟩ := isChecked_of_eq_ok hfound
  exact ⟨hchecked, hrs⟩

/-- What is reported of a file depends on what is read from it. -/
theorem recordsOf_congr (hcwd : gs.cwd = fs.cwd) (hread : gs.read file = fs.read file) :
    c.recordsOf parser plan gs file = c.recordsOf parser plan fs file := by
  have hrecord : c.recordOf gs = c.recordOf fs := by
    funext d
    rw [recordOf, recordOf, hcwd]
  rw [recordsOf, recordsOf, lintOnly_congr hread, hrecord]

/-- Whether paths that lead to the same file are the same. -/
def ToldApart (fs : Files) (paths : List Path) : Prop :=
  ∀ p ∈ paths, ∀ q ∈ paths, ∀ names, fs.resolve p = .ok names → fs.resolve q = .ok names →
    p.same q = true

theorem toldApart_congr {paths : List Path} (h : ToldApart fs paths) (halike : Files.Alike fs gs) :
    ToldApart gs paths := by
  intro p hp q hq names hpnames hqnames
  rw [Files.resolve_congr halike] at hpnames hqnames
  exact h p hp q hq names hpnames hqnames

/-- Paths that are told apart, each once, lead to different files. -/
theorem separate_paths {paths : List Path} (h : ToldApart fs paths) (preset : Preset) (fix : Bool)
    (language : Language) :
    ((Plan.ofPaths preset fix paths).paths language).Pairwise (Separate fs) := by
  rw [Plan.paths_ofPaths]
  refine (Path.pairwise_sortUnique _).imp_of_mem fun {p q} hp hq hlt names hpnames hqnames => ?_
  have hsame := h p (Plan.mem_pathsFor hp).1 q (Plan.mem_pathsFor hq).1 names hpnames hqnames
  rw [Path.compare_eq_iff_same.2 hsame] at hlt
  cases hlt

/-- A file that can be checked is where its path leads. -/
theorem resolve_of_isChecked (h : c.IsChecked parser plan fs file) :
    fs.resolve file = .ok (Path.namesFrom fs.cwd.names file) := by
  obtain ⟨text, hread, -⟩ := lintOnly_eq_ok h
  obtain ⟨names, hresolve, -, -⟩ := Files.read_eq_ok_iff.1 hread
  rw [hresolve, Files.resolve_eq_namesFrom hresolve]

/-- Files that can be checked are told apart by the names they have in a
report. -/
theorem relativize_ne {p q : Path} (hseparate : Separate fs p q)
    (hp : c.IsChecked parser plan fs p) (hq : c.IsChecked parser plan fs q) :
    p.relativize (some fs.cwd) ≠ q.relativize (some fs.cwd) := by
  intro heq
  refine hseparate _ (resolve_of_isChecked hp) ?_
  rw [resolve_of_isChecked hq, ← Path.namesFrom_relativize, ← heq, Path.namesFrom_relativize]

/-- The records of what is found in a file are about this file. -/
theorem file_of_mem_map {r : Record} (h : r ∈ (c.foundIn parser plan fs file).map (c.recordOf fs)) :
    r.file = file.relativize (some fs.cwd) := by
  obtain ⟨d, hd, rfl⟩ := List.mem_map.1 h
  rw [← (foundIn_sorted c parser plan fs file).1 d hd]
  rfl

/-- The records about one of some files are those of what is found in it. -/
theorem filter_recordsIn {paths : List Path} (hseparate : paths.Pairwise (Separate fs))
    (hchecked : ∀ p ∈ paths, c.IsChecked parser plan fs p) {p : Path} (hp : p ∈ paths) :
    (c.recordsIn parser plan fs paths).filter (·.file == p.relativize (some fs.cwd)) =
      (c.foundIn parser plan fs p).map (c.recordOf fs) := by
  have hother : ∀ q, q.relativize (some fs.cwd) ≠ p.relativize (some fs.cwd) →
      ((c.foundIn parser plan fs q).map (c.recordOf fs)).filter
        (·.file == p.relativize (some fs.cwd)) = [] := by
    intro q hne
    refine List.filter_eq_nil_iff.2 fun r hr heq => hne ?_
    rw [← file_of_mem_map hr]
    simpa using heq
  induction paths with
  | nil => cases hp
  | cons q paths ih =>
    obtain ⟨hq, hpaths⟩ := List.pairwise_cons.1 hseparate
    obtain ⟨hqchecked, hrest⟩ := List.forall_mem_cons.1 hchecked
    rw [recordsIn, List.flatMap_cons, List.filter_append]
    rcases List.mem_cons.1 hp with rfl | hp
    · have hself : ((c.foundIn parser plan fs p).map (c.recordOf fs)).filter
          (·.file == p.relativize (some fs.cwd)) =
            (c.foundIn parser plan fs p).map (c.recordOf fs) :=
        List.filter_eq_self.2 fun r hr => by simp [file_of_mem_map hr]
      have hnone : (paths.flatMap fun q => (c.foundIn parser plan fs q).map (c.recordOf fs)).filter
          (·.file == p.relativize (some fs.cwd)) = [] := by
        rw [List.filter_flatMap, List.flatMap_eq_nil_iff]
        exact fun q hmem => hother q (relativize_ne (hq q hmem) hqchecked (hrest q hmem)).symm
      rw [hself, hnone, List.append_nil]
    · rw [hother q (relativize_ne (hq p hp) hqchecked (hrest p hp)), List.nil_append]
      exact ih hpaths hrest hp

/-! ## Two runs -/

/-- The batch of a checker that finds something in all of its files. -/
def batchOf (c : Checker) (parser : Parser) (plan : Plan) (fs : Files) (paths : List Path) :
    Batch :=
  ⟨c.name, c.recordsIn parser plan fs paths, none⟩

theorem ofOutcome_eq_batchOf {paths : List Path} :
    Batch.ofOutcome c.name (.ok (paths.flatMap (c.foundIn parser plan fs)))
      (Diagnostic.toRecord (some fs.cwd)) = c.batchOf parser plan fs paths := by
  rw [Batch.ofOutcome, batchOf, recordsIn, List.map_flatMap]
  rfl

/-- A batch without a failure comes from a checker that succeeds. -/
theorem ofOutcome_failure {α : Type} {producer : String} {outcome : Except Failure (List α)}
    {toRecord : α → Record} (h : (Batch.ofOutcome producer outcome toRecord).failure = none) :
    ∃ found, outcome = .ok found := by
  cases outcome with
  | ok found => exact ⟨found, rfl⟩
  | error e => cases h

/-- What a run of both checkers yields. -/
theorem value_run {preset : Preset} {fix : Bool} {paths : List Path}
    (hplan : plan = Plan.ofPaths preset fix paths) : (run parser builtin plan fs).value =
    ((script.check parser plan (style.check parser plan fs).value.files).value.files,
      [Batch.ofOutcome style.name (style.check parser plan fs).value.result
          (Diagnostic.toRecord (some fs.cwd)),
        Batch.ofOutcome script.name
          (script.check parser plan (style.check parser plan fs).value.files).value.result
          (Diagnostic.toRecord (some (style.check parser plan fs).value.files.cwd))]) := by
  subst hplan
  rw [value_run_eq_batches (Plan.nodup_paths preset fix paths)]
  rfl

/-- The files once a run has repaired the stylesheets. -/
def repairedStyles (parser : Parser) (plan : Plan) (fs : Files) : Files :=
  (style.check parser plan fs).value.files

/-- The files a run leaves behind. -/
def leftBehind (parser : Parser) (plan : Plan) (fs : Files) : Files :=
  (run parser builtin plan fs).value.1

theorem leftBehind_eq {preset : Preset} {fix : Bool} {paths : List Path}
    (hplan : plan = Plan.ofPaths preset fix paths) :
    leftBehind parser plan fs =
      (script.check parser plan (repairedStyles parser plan fs)).value.files :=
  congrArg Prod.fst (value_run hplan)

section Runs

variable {preset : Preset} {paths : List Path}

/-- A run that repairs its files finds what there is in the stylesheets once
they are repaired, and in the scripts that are left. -/
theorem run_fix (hpaths : ToldApart fs paths) (hplan : plan = Plan.ofPaths preset true paths)
    (hok : (Report.ofBatches (run parser builtin plan fs).value.2).failures = []) :
    Files.Alike fs (repairedStyles parser plan fs) ∧
      Files.Keeps (fun names => ∀ p ∈ plan.scriptPaths, Apart fs p names)
        (repairedStyles parser plan fs) (leftBehind parser plan fs) ∧
      (∀ p ∈ plan.stylePaths, style.IsChecked parser plan (repairedStyles parser plan fs) p) ∧
      (∀ p ∈ plan.scriptPaths, script.IsChecked parser plan (leftBehind parser plan fs) p) ∧
      (run parser builtin plan fs).value.2 =
        [style.batchOf parser plan (repairedStyles parser plan fs) plan.stylePaths,
          script.batchOf parser plan (leftBehind parser plan fs) plan.scriptPaths] := by
  subst hplan
  have hbatches := Report.failures_eq_nil_iff.1 hok
  rw [value_run rfl] at hbatches
  obtain ⟨styles, hstyles⟩ := ofOutcome_failure (hbatches _ List.mem_cons_self)
  obtain ⟨scripts, hscripts⟩ :=
    ofOutcome_failure (hbatches _ (List.mem_cons_of_mem _ List.mem_cons_self))
  obtain ⟨hkeeps, hchecked, hfound⟩ :=
    check_fix rfl (Plan.pairwise_paths _ _ _ _) (separate_paths hpaths _ _ _) hstyles
  have hresolve := Files.resolve_congr hkeeps.toAlike
  have hpaths' := toldApart_congr hpaths hkeeps.toAlike
  obtain ⟨hkeeps', hchecked', hfound'⟩ :=
    check_fix rfl (Plan.pairwise_paths _ _ _ _) (separate_paths hpaths' _ _ _) hscripts
  rw [leftBehind_eq rfl]
  refine ⟨hkeeps.toAlike, ⟨hkeeps'.toAlike, fun names hnames => ?_⟩, hchecked, hchecked', ?_⟩
  · refine hkeeps'.file names fun p hp => ?_
    rw [Apart, hresolve]
    exact hnames p hp
  · rw [value_run rfl, hstyles, hscripts, hfound, hfound', ← hkeeps.cwd, ofOutcome_eq_batchOf,
      ← hkeeps'.cwd, ofOutcome_eq_batchOf]
    rfl

/-- A run that repairs nothing finds what there is in the scripts, when each of
them can be checked. -/
theorem run_plain (hplan : plan = Plan.ofPaths preset false paths)
    (hscripts : ∀ p ∈ plan.scriptPaths, script.IsChecked parser plan fs p) :
    (run parser builtin plan fs).value.2 =
      [Batch.ofOutcome style.name (style.check parser plan fs).value.result
          (Diagnostic.toRecord (some fs.cwd)),
        script.batchOf parser plan fs plan.scriptPaths] := by
  subst hplan
  have hfiles : (style.check parser (.ofPaths preset false paths) fs).value.files = fs :=
    (check_plain rfl (Plan.pairwise_paths _ _ _ _)).1
  have hresult : (script.check parser (.ofPaths preset false paths) fs).value.result = .ok _ :=
    ((check_plain rfl (Plan.pairwise_paths _ _ _ _)).2 _).2 ⟨hscripts, rfl⟩
  rw [value_run rfl, hfiles, hresult, ofOutcome_eq_batchOf]
  rfl

/-- Of stylesheets the same is reported once the scripts are repaired, unless
they are in markup. -/
theorem recordsOf_eq_of_not_isMarkup (hpaths : ToldApart fs paths)
    (hplan : plan = Plan.ofPaths preset true paths) (halike : Files.Alike fs gs) {hs : Files}
    (hkeeps : Files.Keeps (fun names => ∀ p ∈ plan.scriptPaths, Apart fs p names) gs hs)
    {p : Path} (hp : p ∈ plan.stylePaths) (hmarkup : p.isMarkup = false) :
    style.recordsOf parser plan hs p = style.recordsOf parser plan gs p := by
  subst hplan
  obtain ⟨hmem, hstyle⟩ := Plan.mem_pathsFor hp
  refine recordsOf_congr hkeeps.cwd (hkeeps.read fun names hnames q hq hqnames => ?_)
  rw [Files.resolve_congr halike] at hnames
  obtain ⟨hqmem, hscript⟩ := Plan.mem_pathsFor hq
  rw [← Path.languages_of_same (hpaths p hmem q hqmem names hnames hqnames)] at hscript
  rw [Path.isMarkup_of_languages hstyle hscript] at hmarkup
  cases hmarkup

/-- What a run that repairs nothing finds in stylesheets. -/
theorem check_style_plain (all : List Diagnostic) :
    (style.check parser (.ofPaths preset false paths) fs).value.result = .ok all ↔
      (∀ p ∈ (Plan.ofPaths preset true paths).stylePaths,
          style.IsChecked parser (.ofPaths preset true paths) fs p) ∧
        all = (Plan.ofPaths preset true paths).stylePaths.flatMap
          (style.foundIn parser (.ofPaths preset true paths) fs) :=
  (check_plain rfl (Plan.pairwise_paths _ _ _ _)).2 all

/-- Where the same is reported of every stylesheet, the batches are the same. -/
theorem style_batch_eq (hplan : plan = Plan.ofPaths preset true paths)
    (hgs : ∀ p ∈ plan.stylePaths, style.IsChecked parser plan gs p)
    (h : ∀ p ∈ plan.stylePaths,
      style.recordsOf parser plan fs p = style.recordsOf parser plan gs p) :
    Batch.ofOutcome style.name (style.check parser (.ofPaths preset false paths) fs).value.result
        (Diagnostic.toRecord (some fs.cwd)) =
      style.batchOf parser plan gs plan.stylePaths := by
  subst hplan
  have hfs : ∀ p ∈ (Plan.ofPaths preset true paths).stylePaths,
      style.IsChecked parser (.ofPaths preset true paths) fs p ∧
        (style.foundIn parser (.ofPaths preset true paths) fs p).map (style.recordOf fs) =
          (style.foundIn parser (.ofPaths preset true paths) gs p).map (style.recordOf gs) :=
    fun p hp => isChecked_of_recordsOf ((h p hp).trans (recordsOf_of_isChecked (hgs p hp)))
  have hresult := (check_style_plain _).2 ⟨fun p hp => (hfs p hp).1, rfl⟩
  rw [hresult, ofOutcome_eq_batchOf, batchOf, batchOf, recordsIn, recordsIn, List.flatMap_def,
    List.flatMap_def, List.map_congr_left fun p hp => (hfs p hp).2]

/-- **When a report is about the files that are left.**  A run of both checkers
repairs its files and succeeds.  Then the report of a run that only checks the
files it leaves behind is the same, exactly when of every file of markup the
checker of stylesheets reports the same in the files that are left and in the
files as they were before the scripts were repaired. -/
theorem report_rerun_iff (parser : Parser) (preset : Preset) (paths : List Path) (fs : Files)
    (hpaths : ToldApart fs paths)
    (hok : (Report.ofBatches
      (run parser builtin (.ofPaths preset true paths) fs).value.2).failures = []) :
    let plan := Plan.ofPaths preset true paths
    Report.ofBatches (run parser builtin (.ofPaths preset false paths)
        (leftBehind parser plan fs)).value.2 =
        Report.ofBatches (run parser builtin plan fs).value.2 ↔
      ∀ p ∈ plan.stylePaths, p.isMarkup = true →
        style.recordsOf parser plan (leftBehind parser plan fs) p =
          style.recordsOf parser plan (repairedStyles parser plan fs) p := by
  intro plan
  obtain ⟨halike, hkeeps, hstyles, hscripts, hfix⟩ := run_fix hpaths rfl hok
  have hplain : (run parser builtin (.ofPaths preset false paths)
      (leftBehind parser plan fs)).value.2 = _ := run_plain rfl hscripts
  rw [hplain, hfix]
  constructor
  · intro hreport p hp _
    -- the second run succeeds like the first, and so all stylesheets can be checked
    have hnone := (congrArg Report.failures hreport).trans
      (Report.failures_eq_nil_iff.2 (by simp [batchOf]))
    obtain ⟨found, hfound⟩ :=
      ofOutcome_failure (Report.failures_eq_nil_iff.1 hnone _ List.mem_cons_self)
    obtain ⟨hchecked, rfl⟩ := (check_style_plain found).1 hfound
    rw [hfound, ofOutcome_eq_batchOf] at hreport
    have hrecords := Report.filter_records_of_eq hreport
      (p.relativize (some (leftBehind parser plan fs).cwd))
    have hleft := filter_recordsIn
      (separate_paths (toldApart_congr hpaths (halike.trans hkeeps.toAlike)) preset true .style)
      hchecked hp
    have hrepaired := filter_recordsIn
      (separate_paths (toldApart_congr hpaths halike) preset true .style) hstyles hp
    rw [← hkeeps.cwd] at hrepaired
    rw [recordsOf_of_isChecked (hchecked p hp), recordsOf_of_isChecked (hstyles p hp), ← hleft,
      ← hrepaired]
    exact congrArg Except.ok hrecords
  · intro h
    have hall : ∀ p ∈ plan.stylePaths,
        style.recordsOf parser plan (leftBehind parser plan fs) p =
          style.recordsOf parser plan (repairedStyles parser plan fs) p := by
      intro p hp
      cases hmarkup : p.isMarkup with
      | true => exact h p hp hmarkup
      | false => exact recordsOf_eq_of_not_isMarkup hpaths rfl halike hkeeps hp hmarkup
    rw [style_batch_eq rfl hstyles hall]
    rfl

end Runs

/-! ### A page -/

/-- What a checker does with its only file. -/
theorem check_singleton (h : plan.paths c.language = [file]) :
    (c.check parser plan fs).value = ⟨(c.lintFile parser plan file fs).value.files,
      (c.lintFile parser plan file fs).value.result.map Diagnostic.sort⟩ := by
  have hvalue : (c.check parser plan fs).value =
      ⟨(c.lintFiles parser plan (plan.paths c.language) fs).value.files,
        (c.lintFiles parser plan (plan.paths c.language) fs).value.result.map Diagnostic.sort⟩ :=
    rfl
  rw [hvalue, h, value_lintFiles_cons]
  cases (c.lintFile parser plan file fs).value.result with
  | error e => rfl
  | ok found =>
    show (⟨_, .ok (Diagnostic.sort (found ++ []))⟩ : Outcome (List Diagnostic)) = _
    rw [List.append_nil]
    rfl

/-- A file of markup. -/
def page : Path := ⟨"page.html"⟩

/-- A page with a script, and a stylesheet with a property of a browser behind
it. -/
def pageText (script : String) : Text :=
  "<script>".toList ++ script.toList ++ "</script><style>a\x7b-moz-b:1\x7d</style>".toList

/-- The tree of this stylesheet, when it starts at the byte `start`. -/
def sheetAt (start : Nat) : Node :=
  let selectors := Node.construct "selectors" start (start + 1)
    [.construct "tag_name" start (start + 1)]
  let declaration := Node.construct "declaration" (start + 2) (start + 10)
    [.construct "property_name" (start + 2) (start + 8), .token ":" (start + 8),
     .construct "integer_value" (start + 9) (start + 10)]
  let block := Node.construct "block" (start + 1) (start + 11)
    [.token "\x7b" (start + 1), declaration, .token "\x7d" (start + 10)]
  .construct "stylesheet" start (start + 11)
    [.construct "rule_set" start (start + 11) [selectors, block]]

/-- The trees of a page whose script is a statement that ends at the byte
`stop`. -/
def pageEntries (script : String) (stop : Nat) (statement : Node) : ParseTable :=
  let start := stop + 16
  [⟨.html, pageText script, none, ⟨false, .construct "document" 0 (start + 19)
      [.construct "script_element" 0 (stop + 9) [.construct "raw_text" 8 stop],
       .construct "style_element" (stop + 9) (start + 19)
        [.construct "raw_text" start (start + 11)]]⟩⟩,
   ⟨.css, pageText script, some [⟨start, start + 11⟩], ⟨false, sheetAt start⟩⟩,
   ⟨.javascript, pageText script, some [⟨8, stop⟩],
    ⟨false, .construct "program" 8 stop [statement]⟩⟩]

/-- The trees of the page, before and after its semicolon is deleted. -/
def pageTrees : ParseTable :=
  pageEntries "a;" 10
      (.construct "expression_statement" 8 10 [.construct "identifier" 8 9, .token ";" 9]) ++
    pageEntries "a" 9 (.construct "expression_statement" 8 9 [.construct "identifier" 8 9])

/-- A preset with one rule for each language. -/
def pagePreset : Preset :=
  (Preset.setLevel {} .propertyNoVendorPrefix .error).setLevel .semi .error

/-- The plan to check the page, and perhaps to repair it. -/
def pagePlan (fix : Bool) : Plan := .ofPaths pagePreset fix [page]

/-- A directory with one page. -/
def pageFiles (script : String) : Files where
  cwd := ⟨"/work"⟩
  entries := [(["work", "page.html"], .text (pageText script))]

/-- The property, which starts at the byte `start`. -/
def prefixedAt (start : Nat) : Violation :=
  ⟨.propertyNoVendorPrefix, VendorPrefix.message "-moz-b".toList, ⟨start, start + 6⟩, none⟩

theorem pagePlan_eq (fix : Bool) : pagePlan fix = Plan.ofPaths pagePreset fix [page] := rfl

theorem paths_pagePlan (fix : Bool) (language : Language) :
    (pagePlan fix).paths language = [page] := by
  rw [pagePlan, Plan.paths_of_pairwise (List.pairwise_singleton _ _)]
  cases language with
  | style => decide
  | script => decide

/-- In the stylesheet the property is found, wherever the script ends. -/
theorem checkText_style_page (script : String) (start : Nat) {root : Node}
    (hempty : (style.document pageTrees.parser page (pageText script)).isEmpty = false)
    (hparse : (style.document pageTrees.parser page (pageText script)).parse pageTrees.parser =
      .ok root)
    (hvs : (style.analysis pageTrees.parser (pagePlan true)
      (style.document pageTrees.parser page (pageText script)) root).toOption =
        some [prefixedAt start]) :
    (style.checkText pageTrees.parser (pagePlan true) page (pageText script)).value =
      .ok [complete (style.document pageTrees.parser page (pageText script)) pagePreset
        (prefixedAt start)] := by
  rw [checkText_of_analysis hempty hparse (eq_ok_of_toOption hvs), List.map_cons, List.map_nil,
    Diagnostic.sort_singleton]
  rfl

theorem checkText_style_before :
    (style.checkText pageTrees.parser (pagePlan true) page (pageText "a;")).value =
      .ok [complete (style.document pageTrees.parser page (pageText "a;")) pagePreset
        (prefixedAt 28)] :=
  checkText_style_page "a;" 28 rfl rfl (by decide +kernel)

theorem checkText_style_after :
    (style.checkText pageTrees.parser (pagePlan true) page (pageText "a")).value =
      .ok [complete (style.document pageTrees.parser page (pageText "a")) pagePreset
        (prefixedAt 27)] :=
  checkText_style_page "a" 27 rfl rfl (by decide +kernel)

theorem checkText_script_before :
    (script.checkText pageTrees.parser (pagePlan true) page (pageText "a;")).value =
      .ok [complete (script.document pageTrees.parser page (pageText "a;")) pagePreset
        ⟨.semi, "Extra semicolon.", ⟨9, 10⟩, some (.delete ⟨9, 10⟩)⟩] := by
  have hvs : script.analysis pageTrees.parser (pagePlan true)
      (script.document pageTrees.parser page (pageText "a;"))
      (.construct "program" 8 10 [.construct "expression_statement" 8 10
        [.construct "identifier" 8 9, .token ";" 9]]) =
      .ok [⟨.semi, "Extra semicolon.", ⟨9, 10⟩, some (.delete ⟨9, 10⟩)⟩] := rfl
  rw [checkText_of_analysis rfl rfl hvs, List.map_cons, List.map_nil, Diagnostic.sort_singleton]
  rfl

theorem checkText_script_after :
    (script.checkText pageTrees.parser (pagePlan true) page (pageText "a")).value = .ok [] := by
  have hvs : script.analysis pageTrees.parser (pagePlan true)
      (script.document pageTrees.parser page (pageText "a"))
      (.construct "program" 8 9 [.construct "expression_statement" 8 9
        [.construct "identifier" 8 9]]) = .ok [] := rfl
  rw [checkText_of_analysis rfl rfl hvs, List.map_nil, Diagnostic.sort_nil]

/-- The semicolon is deleted in one round. -/
theorem rounds_page :
    script.Rounds pageTrees.parser (pagePlan true) page 0 (pageText "a;") (pageText "a") :=
  .last (round_of_single checkText_script_before rfl (by decide))

/-- The record of the property, in the column it starts at. -/
def prefixedRecord (column : Nat) : Record :=
  ⟨"page.html", 1, column, VendorPrefix.message "-moz-b".toList, "property-no-vendor-prefix",
    .error, "style"⟩

/-- What a checker reports when it finds one thing, or nothing, in the page. -/
theorem ofOutcome_page {fix : Bool} {found : List Diagnostic}
    (h : (c.lintFile parser (pagePlan fix) page fs).value.result = .ok found)
    (hshort : found.length ≤ 1) :
    Batch.ofOutcome c.name (c.check parser (pagePlan fix) fs).value.result
      (Diagnostic.toRecord (some fs.cwd)) = ⟨c.name, found.map (c.recordOf fs), none⟩ := by
  have hsorted : Diagnostic.sort found = found := by
    match found, hshort with
    | [], _ => exact Diagnostic.sort_nil
    | [d], _ => exact Diagnostic.sort_singleton d
  rw [check_singleton (paths_pagePlan fix _), h]
  show Batch.ofOutcome _ (.ok (Diagnostic.sort found)) _ = _
  rw [hsorted]
  rfl

/-- The repair reports the property where it was before the semicolon was
deleted. -/
theorem run_page_fix :
    (run pageTrees.parser builtin (pagePlan true) (pageFiles "a;")).value.2 =
        [⟨"style", [prefixedRecord 29], none⟩, ⟨"script", [], none⟩] ∧
      (leftBehind pageTrees.parser (pagePlan true) (pageFiles "a;")).read page =
        .ok (pageText "a") ∧
      (leftBehind pageTrees.parser (pagePlan true) (pageFiles "a;")).cwd = ⟨"/work"⟩ := by
  have hread : (pageFiles "a;").read page = .ok (pageText "a;") := rfl
  have hstyle : (style.lintFile pageTrees.parser (pagePlan true) page (pageFiles "a;")).value = _ :=
    lintFix_of_no_fixes hread checkText_style_before (by decide)
  have hscript : (script.lintFix pageTrees.parser (pagePlan true) page
      (pageFiles "a;")).value.result = .ok [] :=
    (lintFix_of_rounds rounds_page (by decide) hread rfl).1.trans checkText_script_after
  have hleft := (lintFix_of_rounds rounds_page (by decide) hread rfl).2
  have hkeeps := (lintFix_isChecked hscript).2
  have hrepaired : (style.check pageTrees.parser (pagePlan true) (pageFiles "a;")).value.files =
      pageFiles "a;" := by
    rw [check_singleton (paths_pagePlan true _), hstyle]
  have hfiles : leftBehind pageTrees.parser (pagePlan true) (pageFiles "a;") =
      (script.lintFix pageTrees.parser (pagePlan true) page (pageFiles "a;")).value.files := by
    rw [leftBehind_eq (pagePlan_eq true), repairedStyles, hrepaired,
      check_singleton (paths_pagePlan true _)]
    rfl
  refine ⟨?_, by rw [hfiles, hleft], by rw [hfiles, hkeeps.cwd]; rfl⟩
  have hstyle' : (style.lintFile pageTrees.parser (pagePlan true) page
      (pageFiles "a;")).value.result = _ := congrArg Outcome.result hstyle
  have hscript' : (script.lintFile pageTrees.parser (pagePlan true) page
      (pageFiles "a;")).value.result = .ok [] := hscript
  rw [value_run (pagePlan_eq true), hrepaired, ofOutcome_page hstyle' (Nat.le_refl 1),
    ofOutcome_page hscript' (Nat.zero_le 1)]
  rfl

/-- A mere check of what is left reports the property one column before. -/
theorem run_page_plain :
    (run pageTrees.parser builtin (pagePlan false)
        (leftBehind pageTrees.parser (pagePlan true) (pageFiles "a;"))).value.2 =
      [⟨"style", [prefixedRecord 28], none⟩, ⟨"script", [], none⟩] := by
  obtain ⟨-, hread, hcwd⟩ := run_page_fix
  have hstyle : (style.lintFile pageTrees.parser (pagePlan false) page
      (leftBehind pageTrees.parser (pagePlan true) (pageFiles "a;"))).value.result = _ :=
    (value_lintOnly hread).trans checkText_style_after
  have hscript : (script.lintFile pageTrees.parser (pagePlan false) page
      (leftBehind pageTrees.parser (pagePlan true) (pageFiles "a;"))).value.result = _ :=
    (value_lintOnly hread).trans checkText_script_after
  have hfiles : (style.check pageTrees.parser (pagePlan false)
      (leftBehind pageTrees.parser (pagePlan true) (pageFiles "a;"))).value.files =
      leftBehind pageTrees.parser (pagePlan true) (pageFiles "a;") := by
    rw [check_singleton (paths_pagePlan false _)]
    rfl
  rw [value_run (pagePlan_eq false), hfiles, ofOutcome_page hstyle (Nat.le_refl 1),
    ofOutcome_page hscript (Nat.zero_le 1)]
  have hrecord : style.recordOf (leftBehind pageTrees.parser (pagePlan true) (pageFiles "a;"))
      (complete (style.document pageTrees.parser page (pageText "a")) pagePreset
        (prefixedAt 27)) = prefixedRecord 28 := by
    rw [recordOf, hcwd]
    rfl
  rw [List.map_cons, hrecord]
  rfl

theorem toldApart_page : ToldApart (pageFiles "a;") [page] := by
  intro p hp q hq _ _ _
  rw [List.mem_singleton.1 hp, List.mem_singleton.1 hq]
  exact beq_self_eq_true _

theorem failures_page : (Report.ofBatches
    (run pageTrees.parser builtin (pagePlan true) (pageFiles "a;")).value.2).failures = [] := by
  rw [run_page_fix.1]
  rfl

/-- The page is repaired and reported on, and the report is not about the page
that is left. -/
theorem report_shiftedColumn :
    ToldApart (pageFiles "a;") [page] ∧
      (Report.ofBatches (run pageTrees.parser builtin (.ofPaths pagePreset true [page])
        (pageFiles "a;")).value.2).failures = [] ∧
      Report.ofBatches (run pageTrees.parser builtin (.ofPaths pagePreset false [page])
          (leftBehind pageTrees.parser (.ofPaths pagePreset true [page])
            (pageFiles "a;"))).value.2 ≠
        Report.ofBatches (run pageTrees.parser builtin (.ofPaths pagePreset true [page])
          (pageFiles "a;")).value.2 := by
  refine ⟨toldApart_page, failures_page, fun heq => ?_⟩
  have hreports : Report.ofBatches _ = Report.ofBatches _ :=
    (congrArg Report.ofBatches run_page_plain).symm.trans
      (heq.trans (congrArg Report.ofBatches run_page_fix.1))
  have hrecords := Report.filter_records_of_eq hreports "page.html"
  exact absurd hrecords (by decide)

/-- What is reported of the stylesheet in the page has changed with its script. -/
theorem report_rerun_page :
    ToldApart (pageFiles "a;") [page] ∧
      (Report.ofBatches (run pageTrees.parser builtin (.ofPaths pagePreset true [page])
        (pageFiles "a;")).value.2).failures = [] ∧
      (Report.ofBatches (run pageTrees.parser builtin (.ofPaths pagePreset false [page])
          (leftBehind pageTrees.parser (.ofPaths pagePreset true [page])
            (pageFiles "a;"))).value.2 =
        Report.ofBatches (run pageTrees.parser builtin (.ofPaths pagePreset true [page])
          (pageFiles "a;")).value.2 ↔
        ∀ p ∈ (Plan.ofPaths pagePreset true [page]).stylePaths, p.isMarkup = true →
          style.recordsOf pageTrees.parser (.ofPaths pagePreset true [page])
              (leftBehind pageTrees.parser (.ofPaths pagePreset true [page]) (pageFiles "a;")) p =
            style.recordsOf pageTrees.parser (.ofPaths pagePreset true [page])
              (repairedStyles pageTrees.parser (.ofPaths pagePreset true [page])
                (pageFiles "a;")) p) :=
  ⟨toldApart_page, failures_page,
    report_rerun_iff pageTrees.parser pagePreset [page] (pageFiles "a;") toldApart_page
      failures_page⟩

end Checker
end WebLint
