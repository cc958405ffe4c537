import Mathlib.Data.List.Sort
import WebLint.Proofs.Discovery
import WebLint.Proofs.Discovery.Walk

/-!
# The order of what is found

The globs among the arguments are walked one by one, the other arguments in one walk, and each
walk hands in what it finds as it comes.  The files to check are the same for all that: what is
found is normal, so that a file has one path only, and sorting leaves each path once.

What is proved here:

* `mem_filesOf_iff` — normal paths are files exactly when they are found;
* `filesOf_congr` — the files do not depend on the order and the number of times they are found;
* `paths_increasing_and_determined` — the files to check are strictly increasing, and depend on the
  set of the arguments only.
-/

namespace WebLint

namespace Path

/-- No path comes before itself. -/
instance : Std.Irrefl fun p q : Path => compare p q = .lt where
  irrefl p := by
    have hself : compare p p = .eq := Std.ReflCmp.compare_self
    simp [hself]

/-- No two paths come before each other. -/
instance : Std.Antisymm fun p q : Path => compare p q = .lt where
  antisymm p q hpq hqp := by
    rw [@Std.OrientedCmp.eq_swap _ compare, hqp] at hpq
    cases hpq

/-- Normal paths lead to different names when they are different. -/
theorem IsNormal.namesFrom_inj {p q : Path} (hp : p.IsNormal) (hq : q.IsNormal)
    (dir : List String) (h : namesFrom dir p = namesFrom dir q) : p = q := by
  obtain ⟨ps, hps, rfl⟩ := hp
  obtain ⟨qs, hqs, rfl⟩ := hq
  rw [namesFrom_ofNames hps, namesFrom_ofNames hqs] at h
  rw [h]

end Path

namespace Discovery

variable {p : Path} {found others : List Found}

/-! ## The files among what is found -/

/-- When only normal paths are found, the files are what is found. -/
theorem mem_filesOf_iff (h : ∀ q, .file q ∈ found → q.IsNormal) :
    p ∈ filesOf found ↔ .file p ∈ found := by
  refine ⟨mem_of_mem_filesOf, fun hp => ?_⟩
  obtain ⟨q, hq, hsame⟩ := exists_mem_filesOf hp
  rwa [(h p hp).eq_of_same (h q (mem_of_mem_filesOf hq)) hsame]

theorem pairwise_filesOf (found : List Found) :
    (filesOf found).Pairwise fun p q => Path.compare p q = .lt :=
  Path.pairwise_sortUnique _

/-- The files depend neither on the order in which they are found nor on how often. -/
theorem filesOf_congr (hnormal : ∀ q, .file q ∈ found → q.IsNormal)
    (h : ∀ q, .file q ∈ others ↔ .file q ∈ found) : filesOf others = filesOf found := by
  refine (pairwise_filesOf others).eq_of_mem_iff (pairwise_filesOf found) fun q => ?_
  rw [mem_filesOf_iff fun q hq => hnormal q ((h q).1 hq), mem_filesOf_iff hnormal, h q]

/-! ## All arguments -/

section

variable {w : Walker} {fs : Files} {args : List String}

theorem isNormal_of_mem_findAll (hw : w.IsLocal) (hp : .file p ∈ (findAll w fs args).value) :
    p.IsNormal := by
  obtain ⟨arg, -, hfound⟩ := (mem_findAll_iff hw).1 hp
  exact hfound.isNormal hw

/-- Arguments among which there are the same ones lead to the same files. -/
theorem mem_findAll_congr (hw : w.IsLocal) {args' : List String}
    (h : ∀ arg, arg ∈ args' ↔ arg ∈ args) :
    .file p ∈ (findAll w fs args').value ↔ .file p ∈ (findAll w fs args).value := by
  simp only [mem_findAll_iff hw, h]

end

/-- **The files to check are in order, each once, and depend on the set of the arguments only.**
They are strictly increasing, and no two of them lead to the same names.  Arguments may be
permuted and repeated, and the walks may hand in what they find in any order. -/
theorem paths_increasing_and_determined {w : Walker} (hw : w.IsLocal) (fs : Files)
    (args : List String) :
    (discover w fs args).value.paths.Pairwise (fun p q => Path.compare p q = .lt) ∧
      ((discover w fs args).value.paths.map (Path.namesFrom fs.cwd.names)).Nodup ∧
      ∀ args' : List String, (∀ arg, arg ∈ args' ↔ arg ∈ args) →
        (discover w fs args').value.paths = (discover w fs args).value.paths ∧
          ∀ found, found.Perm (findAll w fs args').value →
            filesOf found = (discover w fs args).value.paths := by
  have hpaths : ∀ args, (discover w fs args).value.paths = filesOf (findAll w fs args).value :=
    fun _ => rfl
  have hincreasing := pairwise_filesOf (findAll w fs args).value
  rw [hpaths]
  refine ⟨hincreasing, ?_, ?_⟩
  · refine List.Nodup.map_on (fun p hp q hq hnames => ?_) hincreasing.nodup
    have hfound := mem_of_mem_filesOf hp
    have hfound' := mem_of_mem_filesOf hq
    exact (isNormal_of_mem_findAll hw hfound).namesFrom_inj
      (isNormal_of_mem_findAll hw hfound') _ hnames
  · intro args' hargs
    have hsettled : ∀ found, found.Perm (findAll w fs args').value →
        filesOf found = filesOf (findAll w fs args).value := fun found hperm =>
      filesOf_congr (fun q => isNormal_of_mem_findAll hw) fun q =>
        hperm.mem_iff.trans (mem_findAll_congr hw hargs)
    exact ⟨hsettled _ (.refl _), hsettled⟩

/-- A directory with a script and a stylesheet. -/
def pairOfFiles : Files :=
  ⟨⟨"/w"⟩, [(["w", "a.js"], .text []), (["w", "b.css"], .text [])], [], []⟩

/-- The directory given twice, and the script in it once more. -/
theorem paths_pairOfFiles : (Walk.walker []).IsLocal ∧
    ⟨"/w/a.js"⟩ ∈ (discover (Walk.walker []) pairOfFiles ["a.js", "."]).value.paths ∧
      (∀ arg, arg ∈ [".", "a.js", "."] ↔ arg ∈ ["a.js", "."]) ∧
      (discover (Walk.walker []) pairOfFiles [".", "a.js", "."]).value.paths =
        (discover (Walk.walker []) pairOfFiles ["a.js", "."]).value.paths := by
  have hw := Walk.isLocal_walker []
  have hargs : ∀ arg, arg ∈ [".", "a.js", "."] ↔ arg ∈ ["a.js", "."] := by
    intro arg
    simp only [List.mem_cons, List.not_mem_nil, or_false]
    tauto
  have hplaces : ∀ s, ⟨⟨"/w/a.js"⟩, 0, false⟩ ∈ Walk.placesFrom [] pairOfFiles s ⟨"/w/a.js"⟩ :=
    fun s => List.mem_singleton_self _
  have hoverrides : (overridesOf (Walk.walker []) ⟨"/w"⟩ none).value =
      some (exclusions.map .unwanted) := by decide +kernel
  have hscript : FoundBy (Walk.walker []) pairOfFiles "a.js" ⟨"/w/a.js"⟩ :=
    .literal (by decide +kernel) (by decide +kernel) hoverrides
      ⟨_, Walk.mem_walk_walker_iff.2 ⟨_, List.mem_singleton_self _, hplaces _⟩,
        ⟨rfl, Or.inr ⟨rfl, rfl⟩⟩, rfl⟩
  exact ⟨hw, (mem_paths_iff hw).2 ⟨"a.js", List.mem_cons_self, hscript⟩, hargs,
    ((paths_increasing_and_determined hw pairOfFiles ["a.js", "."]).2.2 _ hargs).1⟩

end Discovery
end WebLint
