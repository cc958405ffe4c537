import WebLint.Proofs.Checker.Rerun
import WebLint.Proofs.Report.Producers
import WebLint.Proofs.Text.Location

/-!
# The order of a report

Four orders meet in a report.  Diagnostics are sorted by the components of
their paths and then by byte offsets; offsets become rows and columns; the
checkers follow each other; and the report sorts all records again, by the
names it gives the files.  They fit together: a report goes through the files
by name, through the checkers within a file, and within these down the text.

What is proved here:

* `Path.relativize_inj` — absolute paths are told apart by their names in a
  report;
* `lintFiles_eq_ok` — what a checker finds, file by file;
* `pairwise_reported` — the order of the records of a run.
-/

namespace WebLint

/-! ## Diagnostics and paths -/

/-- The diagnostics of one file are in order of their offsets. -/
theorem Diagnostic.start_le_of_le {a b : Diagnostic} (h : le a b = true) (hfile : a.file = b.file) :
    a.span.start ≤ b.span.start := by
  have hself : Path.compare b.file b.file = .eq := Std.ReflCmp.compare_self
  rw [le, compare, hfile, hself, Ordering.eq_then] at h
  refine Nat.le_of_not_lt fun hlt => ?_
  rw [Nat.compare_eq_gt.2 hlt] at h
  cases h

/-- Absolute paths are told apart by the names they have in a report. -/
theorem Path.relativize_inj {cwd p q : Path} (hp : p.normalize (some cwd) = p)
    (hq : q.normalize (some cwd) = q)
    (h : p.relativize (some cwd) = q.relativize (some cwd)) : p = q := by
  have hnames : namesFrom cwd.names p = namesFrom cwd.names q := by
    rw [← namesFrom_relativize, h, namesFrom_relativize]
  rw [← hp, ← hq, normalize, normalize, hnames]

namespace Checker

variable {c : Checker} {parser : Parser} {plan : Plan} {file : Path} {fs : Files}

/-! ## What a checker finds in a file -/

/-- Whether something is what a checker finds in some text of a file. -/
def Finds (c : Checker) (parser : Parser) (plan : Plan) (file : Path) (found : List Diagnostic) :
    Prop :=
  ∃ text, (c.checkText parser plan file text).value = .ok found

/-- What is found in a text goes down the text. -/
theorem Finds.pairwise_location {found : List Diagnostic} (h : c.Finds parser plan file found) :
    found.Pairwise fun a b => Location.Upto a.location b.location := by
  obtain ⟨text, hcheck⟩ := h
  obtain ⟨hfile, hsorted⟩ := checkText_sorted hcheck
  have hplace : ∀ d ∈ found, d.location = Location.ofOffset text d.span.start := by
    rcases checkText_eq_ok hcheck with ⟨-, rfl⟩ | ⟨root, vs, -, -, -, rfl⟩
    · exact fun d hd => absurd hd List.not_mem_nil
    · intro d hd
      obtain ⟨v, -, rfl⟩ := List.mem_map.1 (List.mem_mergeSort.1 hd)
      rfl
  refine hsorted.imp_of_mem fun {a b} ha hb hle => ?_
  rw [hplace a ha, hplace b hb]
  exact Location.upto_ofOffset text
    (Diagnostic.start_le_of_le hle ((hfile a ha).trans (hfile b hb).symm))

/-- What is found in a file, once it has been repaired or as it is, is found in
some text of it. -/
theorem lintFile_eq_ok {found : List Diagnostic}
    (h : (c.lintFile parser plan file fs).value.result = .ok found) :
    c.Finds parser plan file found := by
  rw [lintFile] at h
  split at h
  · obtain ⟨text, -, hcheck, -⟩ := lintFix_eq_ok h
    exact ⟨text, hcheck⟩
  · obtain ⟨text, -, hcheck⟩ := lintOnly_eq_ok h
    exact ⟨text, hcheck⟩

/-- What is found in some files is what is found in each of them. -/
theorem lintFiles_eq_ok {paths : List Path} (hpaths : paths.Nodup) {all : List Diagnostic}
    (h : (c.lintFiles parser plan paths fs).value.result = .ok all) :
    ∃ found : Path → List Diagnostic, (∀ p ∈ paths, c.Finds parser plan p (found p)) ∧
      all = paths.flatMap found := by
  induction paths generalizing fs all with
  | nil => exact ⟨fun _ => [], fun p hp => absurd hp List.not_mem_nil, (Except.ok.inj h).symm⟩
  | cons p paths ih =>
    obtain ⟨hp, hpaths⟩ := List.nodup_cons.1 hpaths
    obtain ⟨first, others, hfirst, hothers, rfl, -⟩ := lintFiles_cons_eq_ok h
    obtain ⟨found, hfound, rfl⟩ := ih hpaths hothers
    have hrest : ∀ q ∈ paths, Function.update found p first q = found q := fun q hq =>
      Function.update_of_ne (by rintro rfl; exact hp hq) _ _
    refine ⟨Function.update found p first, List.forall_mem_cons.2 ⟨?_, fun q hq => ?_⟩, ?_⟩
    · rw [Function.update_self]
      exact lintFile_eq_ok hfirst
    · rw [hrest q hq]
      exact hfound q hq
    · rw [List.flatMap_cons, Function.update_self, List.flatMap_congr hrest]

/-! ## What a checker reports -/

/-- The order of records about one file: those of the style checker come first,
and those of one checker go down the text. -/
def Reported (a b : Record) : Prop :=
  (a.producer = style.name ∧ b.producer = script.name) ∨
    a.producer = b.producer ∧ Location.Upto ⟨a.line, a.column⟩ ⟨b.line, b.column⟩

theorem producer_of_mem_ofOutcome {α : Type} {producer : String}
    {outcome : Except Failure (List α)} {toRecord : α → Record} {r : Record}
    (h : r ∈ (Batch.ofOutcome producer outcome toRecord).records) : r.producer = producer := by
  cases outcome with
  | error e => cases h
  | ok found =>
    obtain ⟨f, -, rfl⟩ := List.mem_map.1 h
    rfl

variable {preset : Preset} {fix : Bool} {paths : List Path}

/-- The records of one checker about one file go down its text. -/
theorem pairwise_batch {cwd : Path} (hplan : plan = Plan.ofPaths preset fix paths)
    (hpaths : ∀ p ∈ paths, p.normalize (some cwd) = p) :
    (Batch.ofOutcome c.name (c.check parser plan fs).value.result
      (Diagnostic.toRecord (some cwd))).records.Pairwise fun a b => a.file = b.file →
        Reported a b := by
  subst hplan
  cases hresult : (c.check parser (.ofPaths preset fix paths) fs).value.result with
  | error e => exact .nil
  | ok all =>
    obtain ⟨list, hlist, rfl⟩ := map_eq_ok_iff.1 hresult
    have horder := Plan.pairwise_paths preset fix paths c.language
    have hnodup := Plan.nodup_paths preset fix paths c.language
    obtain ⟨found, hfound, rfl⟩ := lintFiles_eq_ok hnodup hlist
    have hsorted : ∀ p ∈ (Plan.ofPaths preset fix paths).paths c.language,
        (∀ d ∈ found p, d.file = p) ∧ (found p).Pairwise fun a b => Diagnostic.le a b = true :=
      fun p hp => by
        obtain ⟨text, hcheck⟩ := hfound p hp
        exact checkText_sorted hcheck
    have hnormal : ∀ p ∈ (Plan.ofPaths preset fix paths).paths c.language,
        p.normalize (some cwd) = p := fun p hp => by
      rw [Plan.paths_ofPaths] at hp
      exact hpaths p (Plan.mem_pathsFor hp).1
    rw [Diagnostic.sort_flatMap horder (fun p hp => (hsorted p hp).1) fun p hp => (hsorted p hp).2]
    refine List.pairwise_map.2 (List.pairwise_flatMap.2 ⟨fun p hp => ?_, ?_⟩)
    · exact (hfound p hp).pairwise_location.imp fun hupto _ => .inr ⟨rfl, hupto⟩
    · -- records about different files are told apart by their names
      refine hnodup.imp_of_mem fun {p q} hp hq hne a ha b hb hname => ?_
      refine absurd (Path.relativize_inj (hnormal p hp) (hnormal q hq) ?_) hne
      rw [← (hsorted p hp).1 a ha, ← (hsorted q hq).1 b hb]
      exact hname

/-- **A report goes through the files by name, through the checkers within a
file, and within these down the text.** -/
theorem pairwise_reported (parser : Parser) (preset : Preset) (fix : Bool) (paths : List Path)
    (fs : Files) (hpaths : ∀ p ∈ paths, p.normalize (some fs.cwd) = p) :
    (Report.ofBatches
        (run parser builtin (.ofPaths preset fix paths) fs).value.2).records.Pairwise
      fun a b => Text.bytes a.file ≤ Text.bytes b.file ∧ (a.file = b.file → Reported a b) := by
  refine (Report.pairwise_bytes _).and (Report.pairwise_records ?_)
  rw [value_run rfl, (alike_check fs).cwd]
  simp only [List.flatMap_cons, List.flatMap_nil, List.append_nil]
  refine List.pairwise_append.2 ⟨pairwise_batch rfl hpaths, pairwise_batch rfl hpaths, ?_⟩
  intro a ha b hb _
  exact .inl ⟨producer_of_mem_ofOutcome ha, producer_of_mem_ofOutcome hb⟩

/-! ### Two stylesheets -/

/-- A stylesheet with a property of a browser. -/
def sheetText : Text := "a\x7b-moz-b:1\x7d".toList

/-- Its tree. -/
def sheetTrees : ParseTable := [⟨.css, sheetText, none, ⟨false, sheetAt 0⟩⟩]

/-- Two stylesheets, in the order of their paths. -/
def sheetPaths : List Path := [⟨"/work/a/b.css"⟩, ⟨"/work/a-b.css"⟩]

/-- A directory with these stylesheets. -/
def sheetFiles : Files where
  cwd := ⟨"/work"⟩
  entries := [(["work", "a", "b.css"], .text sheetText), (["work", "a-b.css"], .text sheetText)]

/-- The plan to check them. -/
def sheetPlan : Plan := .ofPaths pagePreset false sheetPaths

/-- The record of the property in a stylesheet. -/
def sheetRecord (file : String) : Record :=
  ⟨file, 1, 3, VendorPrefix.message "-moz-b".toList, "property-no-vendor-prefix", .error, "style"⟩

theorem paths_sheetPlan : sheetPlan.paths .style = sheetPaths ∧ sheetPlan.paths .script = [] := by
  have hpairs : sheetPaths.Pairwise fun p q => Path.compare p q = .lt := by decide
  exact ⟨(Plan.paths_of_pairwise hpairs).trans (by decide),
    (Plan.paths_of_pairwise hpairs).trans (by decide)⟩

/-- In each of them the property is found. -/
theorem lintOnly_sheet {p : Path} (hp : p ∈ sheetPaths) :
    (style.lintOnly sheetTrees.parser sheetPlan p sheetFiles).value =
      .ok [complete (style.document sheetTrees.parser p sheetText) pagePreset (prefixedAt 2)] := by
  have hcases : p = ⟨"/work/a/b.css"⟩ ∨ p = ⟨"/work/a-b.css"⟩ := by simpa [sheetPaths] using hp
  have hread : sheetFiles.read p = .ok sheetText := by
    rcases hcases with rfl | rfl
    · rfl
    · rfl
  have hvs : ∀ q ∈ sheetPaths, (style.analysis sheetTrees.parser sheetPlan
      (style.document sheetTrees.parser q sheetText) (sheetAt 0)).toOption =
        some [prefixedAt 2] := by decide +kernel
  have hcheck : (style.checkText sheetTrees.parser sheetPlan p sheetText).value =
      .ok (Diagnostic.sort [complete (style.document sheetTrees.parser p sheetText) pagePreset
        (prefixedAt 2)]) := by
    refine checkText_of_analysis ?_ ?_ (eq_ok_of_toOption (hvs p hp))
    · rcases hcases with rfl | rfl
      · rfl
      · rfl
    · rcases hcases with rfl | rfl
      · rfl
      · rfl
  rw [value_lintOnly hread, hcheck, Diagnostic.sort_singleton]

/-- The checker reads the stylesheets in the order of their paths. -/
theorem records_run_sheets :
    (run sheetTrees.parser builtin sheetPlan sheetFiles).value.2.flatMap (·.records) =
      [sheetRecord "a/b.css", sheetRecord "a-b.css"] := by
  obtain ⟨hstyles, hscripts⟩ := paths_sheetPlan
  have hchecked : ∀ p ∈ sheetPlan.paths .style,
      style.IsChecked sheetTrees.parser sheetPlan sheetFiles p ∧
        style.foundIn sheetTrees.parser sheetPlan sheetFiles p = [complete
          (style.document sheetTrees.parser p sheetText) pagePreset (prefixedAt 2)] := by
    intro p hp
    rw [hstyles] at hp
    exact isChecked_of_eq_ok (lintOnly_sheet hp)
  have hnone : ∀ p ∈ sheetPlan.paths .script,
      script.IsChecked sheetTrees.parser sheetPlan sheetFiles p := by
    rw [hscripts]
    exact fun p hp => absurd hp List.not_mem_nil
  have hresult : (style.check sheetTrees.parser sheetPlan sheetFiles).value.result = .ok _ :=
    ((check_plain rfl (Plan.pairwise_paths pagePreset false sheetPaths .style)).2 _).2
      ⟨fun p hp => (hchecked p hp).1, rfl⟩
  have hrun : (run sheetTrees.parser builtin sheetPlan sheetFiles).value.2 = _ :=
    run_plain rfl hnone
  rw [hrun, hresult, ofOutcome_eq_batchOf]
  show style.recordsIn sheetTrees.parser sheetPlan sheetFiles (sheetPlan.paths .style) ++
    (script.recordsIn sheetTrees.parser sheetPlan sheetFiles (sheetPlan.paths .script) ++ []) = _
  rw [recordsIn, List.flatMap_congr fun p hp => congrArg _ (hchecked p hp).2, hstyles, recordsIn,
    hscripts]
  rfl

/-- The checker reads the stylesheets in the order of their paths; the report
lists them in the order of their names, which is another one. -/
theorem pairwise_sheets :
    let batches := (run sheetTrees.parser builtin (.ofPaths pagePreset false sheetPaths)
      sheetFiles).value.2
    (∀ p ∈ sheetPaths, p.normalize (some sheetFiles.cwd) = p) ∧
      batches.flatMap (·.records) = [sheetRecord "a/b.css", sheetRecord "a-b.css"] ∧
      (Report.ofBatches batches).records = [sheetRecord "a-b.css", sheetRecord "a/b.css"] := by
  intro batches
  have hnormal : ∀ p ∈ sheetPaths, p.normalize (some sheetFiles.cwd) = p := by decide
  have hrecords : batches.flatMap (·.records) =
      [sheetRecord "a/b.css", sheetRecord "a-b.css"] := records_run_sheets
  have hperm : (Report.ofBatches batches).records.Perm
      [sheetRecord "a-b.css", sheetRecord "a/b.css"] := by
    refine (List.mergeSort_perm _ _).trans ?_
    rw [hrecords]
    exact .swap _ _ _
  -- only one of the two permutations is in order
  have horder : (Report.ofBatches batches).records.Pairwise fun a b =>
      Text.bytes a.file ≤ Text.bytes b.file :=
    (pairwise_reported sheetTrees.parser pagePreset false sheetPaths sheetFiles hnormal).imp
      And.left
  have hnames : ∀ a ∈ [sheetRecord "a-b.css", sheetRecord "a/b.css"],
      ∀ b ∈ [sheetRecord "a-b.css", sheetRecord "a/b.css"],
        Text.bytes a.file ≤ Text.bytes b.file → Text.bytes b.file ≤ Text.bytes a.file →
          a = b := by decide
  exact ⟨hnormal, hrecords, hperm.eq_of_pairwise
    (fun a b ha hb => hnames a (hperm.mem_iff.1 ha) b hb) horder (by decide)⟩

end Checker
end WebLint
