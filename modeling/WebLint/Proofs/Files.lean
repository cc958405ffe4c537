import WebLint.Files

/-!
# Files with other contents

Writing a text to a file that can be read changes no name and no directory.
Every path leads where it led before, and the files it does not lead to keep
their contents.

What is proved here:

* `resolve_congr` — where a path leads depends on the names of the files, not on
  their contents;
* `Keeps.read` — a file that keeps its contents is read as before;
* `refusal_congr` — so does whether something can be written there;
* `keeps_write`, `read_write_self` — what a write keeps, and what is read after
  it.
-/

namespace WebLint
namespace Files

/-! ## Names and directories -/

/-- Whether two states have the same files and directories, whatever the files
hold. -/
structure Alike (fs gs : Files) : Prop where
  /-- The working directory is the same. -/
  cwd : gs.cwd = fs.cwd
  /-- The directories are the same. -/
  directories : gs.directories = fs.directories
  /-- The same files may not be written. -/
  readOnly : gs.readOnly = fs.readOnly
  /-- The files have the same names. -/
  names : gs.entries.map (·.1) = fs.entries.map (·.1)

theorem Alike.refl (fs : Files) : Alike fs fs := ⟨rfl, rfl, rfl, rfl⟩

theorem Alike.trans {fs gs hs : Files} (h₁ : Alike fs gs) (h₂ : Alike gs hs) : Alike fs hs :=
  ⟨h₂.cwd.trans h₁.cwd, h₂.directories.trans h₁.directories, h₂.readOnly.trans h₁.readOnly,
    h₂.names.trans h₁.names⟩

theorem Alike.symm {fs gs : Files} (h : Alike fs gs) : Alike gs fs :=
  ⟨h.cwd.symm, h.directories.symm, h.readOnly.symm, h.names.symm⟩

/-- A file is there when its name is. -/
theorem file?_eq_none_iff {fs : Files} {names : List String} :
    fs.file? names = none ↔ names ∉ fs.entries.map (·.1) := by
  rw [file?, Option.map_eq_none_iff, List.find?_eq_none, List.mem_map]
  constructor
  · rintro h ⟨e, he, hname⟩
    exact h e he (by simp [hname])
  · intro h e he hname
    exact h ⟨e, he, by simpa using hname⟩

theorem isDirectory_congr {fs gs : Files} (h : Alike fs gs) (names : List String) :
    gs.isDirectory names = fs.isDirectory names := by
  have hany : ∀ es : List (List String × Contents),
      (es.any fun e => names.isPrefixOf e.1 && e.1.length != names.length) =
        (es.map (·.1)).any fun n => names.isPrefixOf n && n.length != names.length := by
    intro es
    rw [List.any_map]
    rfl
  rw [isDirectory, isDirectory, hany, hany, h.names, h.cwd, h.directories]

/-- Where the parts of a path lead depends on the names of the files, not on
their contents. -/
theorem follow_congr {fs gs : Files} (h : Alike fs gs) (dir : List String)
    (parts : List (List Char)) : gs.follow dir parts = fs.follow dir parts := by
  induction parts generalizing dir with
  | nil => rfl
  | cons part parts ih =>
    rw [follow, follow, found?, found?, isDirectory_congr h]
    cases fs.isDirectory dir with
    | true =>
      rw [if_pos rfl, if_pos rfl]
      cases Path.Component.ofPart part with
      | none => exact ih dir
      | some c => exact ih (Path.step dir c)
    | false =>
      -- a part behind a file, or behind nothing at all, leads nowhere
      rw [if_neg Bool.false_ne_true, if_neg Bool.false_ne_true]
      have hnone : gs.file? dir = none ↔ fs.file? dir = none := by
        rw [file?_eq_none_iff, file?_eq_none_iff, h.names]
      cases hgs : gs.file? dir with
      | none =>
        rw [hnone.1 hgs]
        rfl
      | some contents =>
        cases hfs : fs.file? dir with
        | none => exact absurd (hnone.2 hfs) (by simp [hgs])
        | some contents' => rfl

/-- Where a path leads depends on the names of the files, not on their
contents. -/
theorem resolve_congr {fs gs : Files} (h : Alike fs gs) (p : Path) :
    gs.resolve p = fs.resolve p := by
  unfold resolve
  split
  · rfl
  · exact follow_congr h _ _
  · rw [h.cwd]
    exact follow_congr h _ _

/-- Whether something can be written depends on the names of the files, not on their
contents. -/
theorem refusal_congr {fs gs : Files} (h : Alike fs gs) (p : Path) :
    gs.refusal p = fs.refusal p := by
  unfold refusal
  rw [resolve_congr h, h.readOnly]
  split
  · rfl
  · rw [isDirectory_congr h]

/-- A file is read when a path leads to its text, and to no directory. -/
theorem read_eq_ok_iff {fs : Files} {p : Path} {t : Text} :
    fs.read p = .ok t ↔ ∃ names, fs.resolve p = .ok names ∧ fs.isDirectory names = false ∧
      fs.file? names = some (.text t) := by
  unfold read lookup
  cases hresolve : fs.resolve p with
  | error e => simp
  | ok names =>
    simp only [Except.ok.injEq, exists_eq_left']
    unfold found?
    cases hdir : fs.isDirectory names with
    | true => simp
    | false =>
      cases hfile : fs.file? names with
      | none => simp
      | some contents =>
        cases contents with
        | text s => simp
        | binary bytes => simp

/-! ## Contents -/

/-- Whether two states of the files are alike, and the files at the names
`kept` hold the same. -/
structure Keeps (kept : List String → Prop) (fs gs : Files) : Prop extends Alike fs gs where
  /-- These files hold the same. -/
  file : ∀ names, kept names → gs.file? names = fs.file? names

theorem Keeps.refl (kept : List String → Prop) (fs : Files) : Keeps kept fs fs :=
  ⟨.refl fs, fun _ _ => rfl⟩

theorem Keeps.trans {kept : List String → Prop} {fs gs hs : Files} (h₁ : Keeps kept fs gs)
    (h₂ : Keeps kept gs hs) : Keeps kept fs hs :=
  ⟨h₁.toAlike.trans h₂.toAlike, fun names hn => (h₂.file names hn).trans (h₁.file names hn)⟩

/-- A file that keeps its contents is read as before. -/
theorem Keeps.read {kept : List String → Prop} {fs gs : Files} (h : Keeps kept fs gs) {p : Path}
    (hp : ∀ names, fs.resolve p = .ok names → kept names) : gs.read p = fs.read p := by
  unfold Files.read lookup
  rw [resolve_congr h.toAlike]
  cases hresolve : fs.resolve p with
  | error e => rfl
  | ok names =>
    have hfound : gs.found? names = fs.found? names := by
      rw [found?, found?, isDirectory_congr h.toAlike, h.file names (hp names hresolve)]
    simp only [hfound]

/-- The entries with other contents at some names. -/
abbrev replaced (es : List (List String × Contents)) (names : List String) (contents : Contents) :
    List (List String × Contents) :=
  es.map fun e => if e.1 == names then (names, contents) else e

theorem map_fst_replaced (es : List (List String × Contents)) (names : List String)
    (contents : Contents) : (replaced es names contents).map (·.1) = es.map (·.1) := by
  rw [List.map_map]
  refine List.map_congr_left fun e _ => ?_
  by_cases h : e.1 = names
  · simp [h]
  · simp [h]

/-- What is put at some names is found there. -/
theorem find?_replaced_self {es : List (List String × Contents)} {names : List String}
    (h : names ∈ es.map (·.1)) (contents : Contents) :
    ((replaced es names contents).find? (·.1 == names)) = some (names, contents) := by
  induction es with
  | nil => cases h
  | cons e es ih =>
    rw [replaced, List.map_cons]
    by_cases he : e.1 = names
    · rw [if_pos (by simp [he]), List.find?_cons_of_pos (by simp)]
    · rw [if_neg (by simp [he]), List.find?_cons_of_neg (by simp [he])]
      refine ih ?_
      rcases List.mem_cons.1 h with heq | h
      · exact absurd heq.symm he
      · exact h

/-- Nothing else changes. -/
theorem find?_replaced_of_ne (es : List (List String × Contents)) {names other : List String}
    (h : other ≠ names) (contents : Contents) :
    (replaced es names contents).find? (·.1 == other) = es.find? (·.1 == other) := by
  induction es with
  | nil => rfl
  | cons e es ih =>
    rw [replaced, List.map_cons]
    by_cases he : e.1 = names
    · have hne : e.1 ≠ other := fun heq => h (heq.symm.trans he)
      rw [if_pos (by simp [he]), List.find?_cons_of_neg (by simpa using h.symm), ih,
        List.find?_cons_of_neg (by simpa using hne)]
    · rw [if_neg (by simp [he])]
      by_cases heq : e.1 = other
      · rw [List.find?_cons_of_pos (by simp [heq]), List.find?_cons_of_pos (by simp [heq])]
      · rw [List.find?_cons_of_neg (by simp [heq]), List.find?_cons_of_neg (by simp [heq]), ih]

/-- Where nothing can be written, nothing is. -/
theorem write_of_refusal {fs : Files} {p : Path} {e : FileError} (h : fs.refusal p = some e)
    (t : Text) : fs.write p t = fs := by
  unfold write
  split
  · rw [h]
    rfl
  · rfl

/-- A write to a file that can be read and written. -/
theorem write_eq {fs : Files} {p : Path} {s : Text} (h : fs.read p = .ok s)
    (hrefusal : fs.refusal p = none) (t : Text) :
    ∃ names, fs.resolve p = .ok names ∧ fs.isDirectory names = false ∧
      names ∈ fs.entries.map (·.1) ∧
      fs.write p t = { fs with entries := replaced fs.entries names (.text t) } := by
  obtain ⟨names, hresolve, hdir, hfile⟩ := read_eq_ok_iff.1 h
  have hmem : names ∈ fs.entries.map (·.1) := by
    refine Classical.byContradiction fun hnot => ?_
    rw [file?_eq_none_iff.2 hnot] at hfile
    cases hfile
  refine ⟨names, hresolve, hdir, hmem, ?_⟩
  have hany : (fs.entries.any (·.1 == names)) = true := by simpa using hmem
  rw [write, hresolve, hrefusal]
  exact if_pos hany

/-- A write to a file that can be read keeps all other files. -/
theorem keeps_write {fs : Files} {p : Path} {s : Text} (h : fs.read p = .ok s) (t : Text) :
    Keeps (fun names => fs.resolve p ≠ .ok names) fs (fs.write p t) := by
  cases hrefusal : fs.refusal p with
  | some e =>
    rw [write_of_refusal hrefusal]
    exact .refl _ fs
  | none =>
    obtain ⟨names, hresolve, -, -, hwrite⟩ := write_eq h hrefusal t
    rw [hwrite]
    refine ⟨⟨rfl, rfl, rfl, map_fst_replaced _ _ _⟩, fun other hother => ?_⟩
    have hne : other ≠ names := fun heq => hother (heq ▸ hresolve)
    exact congrArg (Option.map (·.2)) (find?_replaced_of_ne fs.entries hne (.text t))

/-- What is written to a file that can be read and written is read from it. -/
theorem read_write_self {fs : Files} {p : Path} {s : Text} (h : fs.read p = .ok s)
    (hrefusal : fs.refusal p = none) (t : Text) : (fs.write p t).read p = .ok t := by
  have halike := (keeps_write h t).toAlike
  obtain ⟨names, hresolve, hdir, hmem, hwrite⟩ := write_eq h hrefusal t
  refine read_eq_ok_iff.2 ⟨names, ?_, ?_, ?_⟩
  · rw [resolve_congr halike, hresolve]
  · rw [isDirectory_congr halike, hdir]
  · rw [hwrite, file?, find?_replaced_self hmem]
    rfl

end Files
end WebLint
