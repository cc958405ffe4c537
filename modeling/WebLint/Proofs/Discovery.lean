import WebLint.Proofs.Discovery.Walker
import WebLint.Proofs.Path.Order

/-!
# What is found

The arguments of a run are walked in several goes, and what the walks find is sorted in the
end.  Whether a file is found does not depend on any of this: it is found when one of the
arguments, taken by itself, leads to it.  Of the walker nothing is assumed but that it treats each
path of a walk as it would alone.

What is proved here:

* `mem_visit_iff` — which of the places a walk comes to are files to check;
* `mem_walk_iff` — what one walk finds is what it finds from each of its paths;
* `mem_paths_iff` — what is found for some arguments is what each of them leads to.
-/

namespace WebLint

/-! ## Logs -/

namespace Logged

theorem lawfulMonad : LawfulMonad Logged := LawfulMonad.mk' Logged
  (fun x => by cases x; simp [Functor.map])
  (fun a f => by simp [bind, pure])
  (fun x f g => by simp [bind])

/-- The value of several computations in a row. -/
theorem value_mapM {α β : Type} (f : α → Logged β) (l : List α) :
    (l.mapM f).value = l.map fun a => (f a).value := by
  have hlawful := lawfulMonad
  induction l with
  | nil => rfl
  | cons a l ih =>
    rw [List.mapM_cons, List.map_cons, ← ih]
    rfl

end Logged

namespace Discovery

variable {w : Walker} {fs : Files} {p : Path}

/-! ## Walks -/

/-- Whether a place is a file to check. -/
structure IsTaken (isGlob : Bool) (place : Place) : Prop where
  /-- It is no directory. -/
  file : place.isDirectory = false
  /-- Some checker handles it, unless it has been named. -/
  handled : place.path.isLintable = true ∨ place.depth = 0 ∧ isGlob = false

/-- Whether a walk that starts at a path finds a file. -/
def WalkFinds (w : Walker) (fs : Files) (s : WalkSettings) (isGlob : Bool) (start p : Path) :
    Prop :=
  ∃ place, .ok place ∈ w.walk fs s [start] ∧ IsTaken isGlob place ∧ place.path = p

/-- Whether an argument leads to a file. -/
inductive FoundBy (w : Walker) (fs : Files) (arg : String) (p : Path) : Prop
  /-- From what has been named. -/
  | literal {root : Path} {overrides : List Override} (harg : splitGlob fs arg = none)
      (hroot : root = Path.normalize (some fs.cwd) ⟨"."⟩)
      (hoverrides : (overridesOf w root none).value = some overrides)
      (hfinds : WalkFinds w fs (settings root overrides) false
        (Path.normalize (some fs.cwd) ⟨arg⟩) p)
  /-- From where a glob starts. -/
  | glob {given root : Path} {pattern : String} {overrides : List Override}
      (harg : splitGlob fs arg = some (given, pattern))
      (hroot : root = given.normalize (some fs.cwd))
      (hoverrides : (overridesOf w root (some pattern)).value = some overrides)
      (hfinds : WalkFinds w fs (settings root overrides) true root p)

theorem WalkFinds.isNormal {s : WalkSettings} {isGlob : Bool} {start : Path} (hw : w.IsLocal)
    (hstart : start.IsNormal) (h : WalkFinds w fs s isGlob start p) : p.IsNormal := by
  obtain ⟨place, hplace, -, rfl⟩ := h
  exact hw.normal hstart hplace

theorem FoundBy.isNormal {arg : String} (hw : w.IsLocal) (h : FoundBy w fs arg p) :
    p.IsNormal := by
  cases h with
  | literal _ _ _ hfinds => exact hfinds.isNormal hw (Path.isNormal_normalize _ _)
  | glob _ hroot _ hfinds => exact hfinds.isNormal hw (hroot ▸ Path.isNormal_normalize _ _)

/-- What is taken of what a walk hands in. -/
theorem mem_visit_iff {isGlob : Bool} {handed : Except String Place} :
    .file p ∈ (visit isGlob handed).value ↔
      ∃ place, handed = .ok place ∧ IsTaken isGlob place ∧ place.path = p := by
  cases handed with
  | error message => simp [visit]
  | ok place =>
    simp only [Except.ok.injEq, exists_eq_left']
    rw [visit]
    split
    · rename_i hnamed
      simp only [Bool.and_eq_true, beq_iff_eq, Bool.not_eq_true'] at hnamed
      have htaken : IsTaken isGlob place := ⟨hnamed.2, Or.inr hnamed.1⟩
      simp [htaken, eq_comm]
    · rename_i hnamed
      split
      · rename_i hhandled
        simp only [Bool.and_eq_true, Bool.not_eq_true'] at hhandled
        have htaken : IsTaken isGlob place := ⟨hhandled.1, Or.inl hhandled.2⟩
        simp [htaken, eq_comm]
      · rename_i hhandled
        refine iff_of_false List.not_mem_nil fun ⟨htaken, _⟩ => ?_
        rcases htaken.handled with h | h
        · exact hhandled (by simp [htaken.file, h])
        · exact hnamed (by simp [htaken.file, h])

/-- What one walk finds. -/
theorem mem_walk_iff (hw : w.IsLocal) {paths : List Path} {given : Path}
    {pattern : Option String} : .file p ∈ (walk w fs paths given pattern).value ↔
      ∃ overrides, (overridesOf w (given.normalize (some fs.cwd)) pattern).value = some overrides ∧
        ∃ q ∈ paths, WalkFinds w fs (settings (given.normalize (some fs.cwd)) overrides)
          pattern.isSome (q.normalize (some fs.cwd)) p := by
  rw [walk]
  split
  · rename_i hempty
    have hnil : paths = [] := by simpa using hempty
    simp [hnil]
  · rw [Logged.value_bind]
    cases (overridesOf w (given.normalize (some fs.cwd)) pattern).value with
    | none => simp
    | some overrides =>
      simp only [Logged.value_bind, Logged.value_pure, Logged.value_mapM, List.mem_flatten,
        List.mem_map, Option.some.injEq, exists_eq_left']
      constructor
      · rintro ⟨_, ⟨handed, hhanded, rfl⟩, hp⟩
        obtain ⟨place, rfl, htaken⟩ := mem_visit_iff.1 hp
        obtain ⟨start, hstart, hplace⟩ := (hw.apart _ _ _ _).1 hhanded
        obtain ⟨q, hq, rfl⟩ := List.mem_map.1 hstart
        exact ⟨q, hq, place, hplace, htaken⟩
      · rintro ⟨q, hq, place, hplace, htaken⟩
        have hhanded := (hw.apart _ _ _ _).2 ⟨_, List.mem_map_of_mem hq, hplace⟩
        exact ⟨_, ⟨_, hhanded, rfl⟩, mem_visit_iff.2 ⟨place, rfl, htaken⟩⟩

/-! ## All arguments -/

/-- What is found for some arguments is what each of them leads to. -/
theorem mem_findAll_iff (hw : w.IsLocal) {args : List String} :
    .file p ∈ (findAll w fs args).value ↔ ∃ arg ∈ args, FoundBy w fs arg p := by
  simp only [findAll, Logged.value_bind, Logged.value_pure, Logged.value_mapM, List.mem_append,
    List.mem_flatten, List.mem_map]
  constructor
  · rintro (⟨_, ⟨⟨given, pattern⟩, hglob, rfl⟩, hp⟩ | hp)
    · obtain ⟨arg, harg, hsplit⟩ := List.mem_filterMap.1 hglob
      obtain ⟨overrides, hoverrides, q, hq, hfinds⟩ := (mem_walk_iff hw).1 hp
      rw [List.mem_singleton.1 hq] at hfinds
      exact ⟨arg, harg, .glob hsplit rfl hoverrides hfinds⟩
    · obtain ⟨overrides, hoverrides, q, hq, hfinds⟩ := (mem_walk_iff hw).1 hp
      obtain ⟨arg, harg, rfl⟩ := List.mem_map.1 hq
      obtain ⟨harg, hsplit⟩ := List.mem_filter.1 harg
      exact ⟨arg, harg, .literal (Option.isNone_iff_eq_none.1 hsplit) rfl hoverrides hfinds⟩
  · rintro ⟨arg, harg, hfound⟩
    cases hfound with
    | literal hsplit hroot hoverrides hfinds =>
      subst hroot
      refine Or.inr ((mem_walk_iff hw).2 ⟨_, hoverrides, ⟨arg⟩, ?_, hfinds⟩)
      exact List.mem_map_of_mem (List.mem_filter.2 ⟨harg, Option.isNone_iff_eq_none.2 hsplit⟩)
    | @glob given root pattern _ hsplit hroot hoverrides hfinds =>
      subst hroot
      refine Or.inl ⟨_, ⟨(given, pattern), List.mem_filterMap.2 ⟨arg, harg, hsplit⟩, rfl⟩, ?_⟩
      exact (mem_walk_iff hw).2 ⟨_, hoverrides, given, List.mem_singleton_self given, hfinds⟩

theorem mem_of_mem_filesOf {found : List Found} (h : p ∈ filesOf found) : .file p ∈ found := by
  obtain ⟨f, hf, hp⟩ := List.mem_filterMap.1 (Path.mem_of_mem_sortUnique h)
  cases f with
  | file q => rwa [← Option.some.inj hp]
  | complaint m => cases hp

theorem exists_mem_filesOf {found : List Found} (h : .file p ∈ found) :
    ∃ q ∈ filesOf found, p.same q = true :=
  Path.exists_mem_sortUnique (List.mem_filterMap.2 ⟨.file p, h, rfl⟩)

/-- The files to check are those some argument leads to. -/
theorem mem_paths_iff (hw : w.IsLocal) {args : List String} :
    p ∈ (discover w fs args).value.paths ↔ ∃ arg ∈ args, FoundBy w fs arg p := by
  have hvalue : (discover w fs args).value.paths = filesOf (findAll w fs args).value := rfl
  rw [hvalue]
  constructor
  · exact fun hp => (mem_findAll_iff hw).1 (mem_of_mem_filesOf hp)
  · rintro ⟨arg, harg, hfound⟩
    obtain ⟨q, hq, hsame⟩ := exists_mem_filesOf ((mem_findAll_iff hw).2 ⟨arg, harg, hfound⟩)
    obtain ⟨_, -, hother⟩ := (mem_findAll_iff hw).1 (mem_of_mem_filesOf hq)
    -- paths that are found are normal, so the one that is left is the one that was found
    rwa [(hfound.isNormal hw).eq_of_same (hother.isNormal hw) hsame]

end Discovery
end WebLint
