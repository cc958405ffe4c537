import WebLint.Proofs.Path.Names
import WebLint.Proofs.Path.Order

/-!
# The name of a file in a report

A report names a file relative to the working directory when the file lies below it, and as the
path was spelled otherwise.  Either way the name leads where the path leads.

What is proved here:

* `below_eq_some_iff` — what lies below a directory;
* `components_relativize` — the name of a file below the working directory;
* `relativize_designates` — the name in a report stands for the path it was made of;
* `Files.lookup_relativize` — what is found at a path is found at its name in a report.
-/

namespace WebLint
namespace Path

/-! ## Below a directory -/

/-- Whether a path starts at the root and takes no `.` and no `..`. -/
def IsStraight (p : Path) : Prop :=
  ∃ names : List String, p.components = .root :: names.map .name

/-- A straight path leads to the names it spells. -/
theorem names_of_isStraight {p : Path} {names : List String}
    (h : p.components = .root :: names.map .name) : p.names = names := by
  simp [Path.names, namesFrom, h, step, foldl_step_name]

theorem below_eq_some_iff {dir names rest : List String} :
    below dir names = some rest ↔ names = dir ++ rest := by
  refine ⟨below_eq_some, ?_⟩
  rintro rfl
  induction dir with
  | nil => rfl
  | cons d dir ih => simp [below, ih]

theorem isName_of_mem_namesFrom_names {cwd p : Path} {s : String}
    (h : s ∈ namesFrom cwd.names p) : IsName s :=
  isName_of_mem_namesFrom (fun _ hr => isName_of_mem_names hr) s h

/-- The components of the normal form of a path are the root and the names it leads to. -/
theorem components_normalize (cwd p : Path) :
    (p.normalize (some cwd)).components = .root :: (namesFrom cwd.names p).map .name :=
  components_ofNames fun _ hs => isName_of_mem_namesFrom_names hs

/-- Paths with the same normal form lead to the same names. -/
theorem normalize_same_iff {cwd p q : Path} :
    (q.normalize (some cwd)).same (p.normalize (some cwd)) = true ↔
      namesFrom cwd.names q = namesFrom cwd.names p := by
  rw [same, beq_iff_eq, components_normalize, components_normalize, List.cons.injEq]
  simp [List.map_inj_right]

/-! ## Names in a report -/

/-- A file below the working directory is named by what leads to it from there. -/
theorem relativize_of_namesFrom {cwd p : Path} {n : String} {ns : List String}
    (h : namesFrom cwd.names p = cwd.names ++ n :: ns) :
    p.relativize (some cwd) = "/".intercalate (n :: ns) := by
  simp [relativize, below_eq_some_iff.2 h]

/-- The name of a file below the working directory has the components that lead to it. -/
theorem components_relativize {cwd p : Path} {n : String} {ns : List String}
    (h : namesFrom cwd.names p = cwd.names ++ n :: ns) :
    components ⟨p.relativize (some cwd)⟩ = (n :: ns).map .name := by
  rw [relativize_of_namesFrom h]
  refine components_intercalate fun s hs => ?_
  exact isName_of_mem_namesFrom_names (h ▸ List.mem_append_right _ hs)

/-- A file lies below the working directory, or its name is the path, as it was spelled. -/
theorem below_or_eq_spelling (cwd p : Path) :
    (∃ n ns, namesFrom cwd.names p = cwd.names ++ n :: ns) ∨
      p.relativize (some cwd) = p.spelling := by
  rw [relativize]
  split
  · rename_i n ns hbelow
    exact .inl ⟨n, ns, below_eq_some hbelow⟩
  · exact .inr rfl

/-- **The name in a report stands for the path.**  It has the same normal form, and it is its own
name.  Strictly below the working directory it is a relative path without `.` and `..`: what
leads to the file from there, however the path to the file is spelled. -/
theorem relativize_designates (cwd p : Path) (hcwd : cwd.IsStraight) :
    (normalize (some cwd) ⟨p.relativize (some cwd)⟩).same (p.normalize (some cwd)) = true ∧
      relativize (some cwd) ⟨p.relativize (some cwd)⟩ = p.relativize (some cwd) ∧
      ∀ rest : List Component, rest ≠ [] →
        (p.normalize (some cwd)).components = cwd.components ++ rest →
          isAbsolute ⟨p.relativize (some cwd)⟩ = false ∧
            components ⟨p.relativize (some cwd)⟩ = rest ∧ (∀ c ∈ rest, ∃ s, c = .name s) ∧
            ∀ q : Path, (q.normalize (some cwd)).same (p.normalize (some cwd)) = true →
              q.relativize (some cwd) = p.relativize (some cwd) := by
  have hleads := namesFrom_relativize cwd p
  refine ⟨normalize_same_iff.2 hleads, ?_, ?_⟩
  · obtain ⟨n, ns, hnames⟩ | hspelling := below_or_eq_spelling cwd p
    · rw [relativize_of_namesFrom (hleads.trans hnames), relativize_of_namesFrom hnames]
    · rw [hspelling]
      exact hspelling
  · intro rest hrest hbelow
    obtain ⟨dir, hdir⟩ := hcwd
    -- the names of the file are those of the working directory and those of the rest
    obtain ⟨names, hnames, rfl⟩ : ∃ names, namesFrom cwd.names p = cwd.names ++ names ∧
        rest = names.map .name := by
      rw [components_normalize, hdir, List.cons_append, List.cons.injEq] at hbelow
      obtain ⟨front, names, hsplit, hfront, hback⟩ := List.map_eq_append_iff.1 hbelow.2
      obtain rfl : front = dir := by simpa [List.map_inj_right] using hfront
      exact ⟨names, by rw [hsplit, names_of_isStraight hdir], hback.symm⟩
    obtain ⟨n, ns, rfl⟩ := List.exists_cons_of_ne_nil (by simpa using hrest : names ≠ [])
    have hcomponents := components_relativize hnames
    refine ⟨by rw [isAbsolute, hcomponents]; rfl, hcomponents, by simp, fun q hq => ?_⟩
    rw [relativize_of_namesFrom hnames,
      relativize_of_namesFrom ((normalize_same_iff.1 hq).trans hnames)]

/-- A path that climbs out of the working directory and back into it is reported without the
detour, and like any other path to the file. -/
theorem relativize_detour :
    IsStraight ⟨"/w"⟩ ∧
      (normalize (some ⟨"/w"⟩) ⟨"../w//./a/../b.js"⟩).components =
        components ⟨"/w"⟩ ++ [.name "b.js"] ∧
      components ⟨relativize (some ⟨"/w"⟩) ⟨"../w//./a/../b.js"⟩⟩ = [.name "b.js"] ∧
      relativize (some ⟨"/w"⟩) ⟨"b.js/."⟩ = relativize (some ⟨"/w"⟩) ⟨"../w//./a/../b.js"⟩ := by
  have hstraight : IsStraight ⟨"/w"⟩ := ⟨["w"], by decide⟩
  have hbelow : (normalize (some ⟨"/w"⟩) ⟨"../w//./a/../b.js"⟩).components =
      components ⟨"/w"⟩ ++ [.name "b.js"] := by decide
  obtain ⟨-, -, hreport⟩ := relativize_designates ⟨"/w"⟩ ⟨"../w//./a/../b.js"⟩ hstraight
  obtain ⟨-, hcomponents, -, hspelling⟩ := hreport [.name "b.js"] (by simp) hbelow
  exact ⟨hstraight, hbelow, hcomponents, hspelling ⟨"b.js/."⟩ (by decide)⟩

end Path

/-! ## What the names lead to -/

namespace Files

variable {fs : Files}

theorem isDirectory_iff {names : List String} : fs.isDirectory names = true ↔
    (∃ d ∈ fs.cwd.names :: fs.directories, names <+: d) ∨
      ∃ e ∈ fs.entries, names <+: e.1 ∧ e.1.length ≠ names.length := by
  simp [isDirectory]

/-- What is on the way to something is a directory. -/
theorem isDirectory_of_found? {dir rest : List String} {e : Entry} (hrest : rest ≠ [])
    (h : fs.found? (dir ++ rest) = some e) : fs.isDirectory dir = true := by
  have hfront : dir <+: dir ++ rest := List.prefix_append dir rest
  have hlength := List.length_pos_iff.2 hrest
  rw [isDirectory_iff]
  rw [found?] at h
  split at h
  · rename_i hdirectory
    rcases isDirectory_iff.1 hdirectory with ⟨d, hd, hnames⟩ | ⟨f, hf, hnames, -⟩
    · exact .inl ⟨d, hd, hfront.trans hnames⟩
    · have hle := hnames.length_le
      rw [List.length_append] at hle
      exact .inr ⟨f, hf, hfront.trans hnames, by omega⟩
  · obtain ⟨c, hc, -⟩ := Option.map_eq_some_iff.1 h
    obtain ⟨f, hf, -⟩ := Option.map_eq_some_iff.1 hc
    have hname : f.1 = dir ++ rest := by simpa using List.find?_some hf
    refine .inr ⟨f, List.mem_of_find?_eq_some hf, hname ▸ hfront, ?_⟩
    rw [hname, List.length_append]
    omega

/-- Names are followed from a directory to what is found there. -/
theorem follow_names {dir names : List String} {e : Entry} (hnames : ∀ s ∈ names, Path.IsName s)
    (h : fs.found? (dir ++ names) = some e) :
    fs.follow dir (names.map String.toList) = .ok (dir ++ names) := by
  induction names generalizing dir with
  | nil => simp [follow]
  | cons n names ih =>
    have hdirectory := isDirectory_of_found? (List.cons_ne_nil n names) h
    have hfound : fs.found? dir = some .directory := by rw [found?, if_pos hdirectory]
    have hpart := Path.ofPart_of_isName (hnames n List.mem_cons_self)
    have hsplit : dir ++ n :: names = (dir ++ [n]) ++ names := by simp
    rw [List.map_cons, follow, hfound]
    simp only [hpart, Path.step]
    rw [hsplit] at h ⊢
    exact ih (fun s hs => hnames s (List.mem_cons_of_mem n hs)) h

/-- Names joined by slashes are resolved from the working directory. -/
theorem resolve_intercalate {n : String} {ns : List String} {e : Entry}
    (hname : ∀ s ∈ n :: ns, Path.IsName s) (h : fs.found? (fs.cwd.names ++ n :: ns) = some e) :
    fs.resolve ⟨"/".intercalate (n :: ns)⟩ = .ok (fs.cwd.names ++ n :: ns) := by
  obtain ⟨hnil, hroot⟩ := Path.not_root_intercalate hname
  unfold resolve
  split
  · rename_i heq
    exact absurd heq hnil
  · rename_i rest heq
    exact absurd heq (hroot rest)
  · rw [Path.splitSlash_intercalate hname]
    exact follow_names hname h

theorem lookup_eq_ok_iff {p : Path} {e : Entry} :
    fs.lookup p = .ok e ↔ ∃ names, fs.resolve p = .ok names ∧ fs.found? names = some e := by
  rw [lookup]
  cases fs.resolve p with
  | error _ => simp
  | ok names => cases hfound : fs.found? names <;> simp [hfound]

/-- **What is found at a path is found at its name in a report.** -/
theorem lookup_relativize {p : Path} {e : Entry} (h : fs.lookup p = .ok e) :
    fs.lookup ⟨p.relativize (some fs.cwd)⟩ = .ok e := by
  obtain ⟨n, ns, hnames⟩ | hspelling := Path.below_or_eq_spelling fs.cwd p
  · obtain ⟨names, hresolve, hfound⟩ := lookup_eq_ok_iff.1 h
    rw [resolve_eq_namesFrom hresolve, hnames] at hfound
    have hname : ∀ s ∈ n :: ns, Path.IsName s := fun s hs =>
      Path.isName_of_mem_namesFrom_names (hnames ▸ List.mem_append_right _ hs)
    rw [Path.relativize_of_namesFrom hnames, lookup_eq_ok_iff]
    exact ⟨_, resolve_intercalate hname hfound, hfound⟩
  · rw [hspelling]
    exact h

end Files
end WebLint
