import WebLint.Files

/-!
# The names of files

A path leads, if anywhere, to the names its components spell out from the
working directory; and so does the name that a report gives it.  Files that are
told apart by their names are therefore told apart in a report.

What is proved here:

* `Files.resolve_eq_namesFrom` — where a path leads is spelled out by its
  components;
* `components_intercalate` — names joined by slashes are the components of the
  path they make;
* `namesFrom_relativize` — the name in a report leads where the path leads;
* `IsNormal.eq_of_same` — normal paths are spelled alike when they lead to the same names.
-/

namespace WebLint

/-! ## Where paths lead -/

namespace Path

/-- A path from the root. -/
theorem components_of_root {p : Path} {rest : List Char} (h : p.spelling.toList = '/' :: rest) :
    p.components = .root :: (splitSlash rest).filterMap Component.ofPart := by
  rw [components, h]
  rfl

/-- Any other path. -/
theorem components_of_not_root {p : Path} (hnil : p.spelling.toList ≠ [])
    (hroot : ∀ rest, p.spelling.toList ≠ '/' :: rest) :
    p.components = (if (splitSlash p.spelling.toList).head? = some ['.'] then [.here] else []) ++
      (splitSlash p.spelling.toList).filterMap Component.ofPart := by
  unfold components
  split
  · rename_i heq
    exact absurd heq hnil
  · rename_i rest heq
    exact absurd heq (hroot rest)
  · rfl

/-- It leads where its parts do: a leading `.` stays in the directory. -/
theorem foldl_components {p : Path} (hnil : p.spelling.toList ≠ [])
    (hroot : ∀ rest, p.spelling.toList ≠ '/' :: rest) (dir : List String) :
    p.components.foldl step dir =
      ((splitSlash p.spelling.toList).filterMap Component.ofPart).foldl step dir := by
  rw [components_of_not_root hnil hroot, List.foldl_append]
  split
  · rfl
  · rfl

end Path

namespace Files

theorem follow_eq_foldl {fs : Files} {dir names : List String} {parts : List (List Char)}
    (h : fs.follow dir parts = .ok names) :
    names = (parts.filterMap Path.Component.ofPart).foldl Path.step dir := by
  induction parts generalizing dir with
  | nil => exact (Except.ok.inj h).symm
  | cons part parts ih =>
    rw [follow] at h
    split at h
    · cases h
    · cases h
    · cases hpart : Path.Component.ofPart part with
      | none =>
        rw [hpart] at h
        rw [List.filterMap_cons_none hpart]
        exact ih h
      | some c =>
        rw [hpart] at h
        rw [List.filterMap_cons_some hpart, List.foldl_cons]
        exact ih h

/-- Where a path leads is spelled out by its components. -/
theorem resolve_eq_namesFrom {fs : Files} {p : Path} {names : List String}
    (h : fs.resolve p = .ok names) : names = Path.namesFrom fs.cwd.names p := by
  rw [Path.namesFrom]
  unfold resolve at h
  split at h
  · cases h
  · rename_i rest heq
    rw [follow_eq_foldl h, Path.components_of_root heq]
    rfl
  · rename_i hnil hroot
    rw [follow_eq_foldl h, Path.foldl_components hnil hroot]

end Files

/-! ## Names -/

namespace Path

/-- Whether a text names a file or a directory. -/
def IsName (s : String) : Prop :=
  '/' ∉ s.toList ∧ s.toList ≠ [] ∧ s.toList ≠ ['.'] ∧ s.toList ≠ ['.', '.']

instance : DecidablePred IsName := fun _ => inferInstanceAs (Decidable (_ ∧ _ ∧ _ ∧ _))

/-- A name is one component. -/
theorem ofPart_of_isName {s : String} (h : IsName s) :
    Component.ofPart s.toList = some (.name s) := by
  obtain ⟨-, hnil, hdot, hdots⟩ := h
  simp [Component.ofPart, hnil, hdot, hdots]

/-- The name of a part is one. -/
theorem isName_of_ofPart {part : List Char} {s : String} (hslash : '/' ∉ part)
    (h : Component.ofPart part = some (.name s)) : IsName s := by
  unfold Component.ofPart at h
  split at h
  · cases h
  rename_i hpart
  split at h
  · cases h
  rename_i hparts
  obtain ⟨hnil, hdot⟩ := not_or.1 hpart
  obtain rfl := Component.name.inj (Option.some.inj h)
  rw [IsName, String.toList_ofList]
  exact ⟨hslash, hnil, hdot, hparts⟩

/-! ### Splitting at slashes -/

/-- The parts between slashes are those the library splits a list into. -/
theorem splitSlash_eq_splitOn (text : List Char) : splitSlash text = text.splitOn '/' := by
  induction text with
  | nil => rfl
  | cons c text ih =>
    rw [splitSlash, List.splitOn_cons_eq_if_modifyHead, ih]
    by_cases hc : c = '/'
    · rw [if_pos hc, if_pos (beq_iff_eq.2 hc)]
    · rw [if_neg hc, if_neg fun h => hc (beq_iff_eq.1 h)]
      cases hparts : text.splitOn '/' with
      | nil => exact absurd hparts (List.splitOn_ne_nil '/' text)
      | cons part parts => rfl

theorem splitSlash_of_not_mem {part : List Char} (h : '/' ∉ part) : splitSlash part = [part] := by
  rw [splitSlash_eq_splitOn, List.splitOn_eq_singleton h]

/-- No part holds a slash. -/
theorem not_mem_of_mem_splitSlash {text part : List Char} (h : part ∈ splitSlash text) :
    '/' ∉ part := by
  induction text generalizing part with
  | nil =>
    rw [splitSlash, List.mem_singleton] at h
    rw [h]
    exact List.not_mem_nil
  | cons c text ih =>
    rw [splitSlash] at h
    split at h
    · rcases List.mem_cons.1 h with rfl | h
      · exact List.not_mem_nil
      · exact ih h
    · rename_i hc
      split at h
      · rw [List.mem_singleton] at h
        rw [h, List.mem_singleton]
        exact Ne.symm hc
      · rename_i first parts heq
        rcases List.mem_cons.1 h with rfl | h
        · rw [List.mem_cons, not_or]
          exact ⟨Ne.symm hc, ih (heq ▸ List.mem_cons_self)⟩
        · exact ih (heq ▸ List.mem_cons_of_mem _ h)

/-! ### Joining with slashes -/

/-- Names joined by slashes are split into the names. -/
theorem splitSlash_intercalate {n : String} {ns : List String} (h : ∀ s ∈ n :: ns, IsName s) :
    splitSlash ("/".intercalate (n :: ns)).toList = (n :: ns).map String.toList := by
  rw [splitSlash_eq_splitOn, String.toList_intercalate]
  refine List.splitOn_intercalate '/' (fun part hpart => ?_) (by simp)
  obtain ⟨s, hs, rfl⟩ := List.mem_map.1 hpart
  exact (h s hs).1

/-- Names are the components they stand for. -/
theorem filterMap_ofPart {names : List String} (h : ∀ s ∈ names, IsName s) :
    (names.map String.toList).filterMap Component.ofPart = names.map .name := by
  induction names with
  | nil => rfl
  | cons s names ih =>
    rw [List.map_cons, List.filterMap_cons_some (ofPart_of_isName (h s List.mem_cons_self)),
      ih fun r hr => h r (List.mem_cons_of_mem s hr), List.map_cons]

/-- Names joined by slashes make a path that does not start at the root. -/
theorem not_root_intercalate {n : String} {ns : List String} (h : ∀ s ∈ n :: ns, IsName s) :
    ("/".intercalate (n :: ns)).toList ≠ [] ∧
      ∀ rest, ("/".intercalate (n :: ns)).toList ≠ '/' :: rest := by
  have hsplit := splitSlash_intercalate h
  have hnil : n.toList ≠ [] := (h n List.mem_cons_self).2.1
  constructor
  · intro heq
    rw [heq] at hsplit
    exact hnil (List.cons.inj hsplit).1.symm
  · intro rest heq
    rw [heq, splitSlash, if_pos rfl] at hsplit
    exact hnil (List.cons.inj hsplit).1.symm

/-- Names joined by slashes are the components of the path they make. -/
theorem components_intercalate {n : String} {ns : List String} (h : ∀ s ∈ n :: ns, IsName s) :
    components ⟨"/".intercalate (n :: ns)⟩ = (n :: ns).map .name := by
  obtain ⟨hnil, hroot⟩ := not_root_intercalate h
  obtain ⟨-, -, hdot, -⟩ := h n List.mem_cons_self
  have hfront : ¬ ((n :: ns).map String.toList).head? = some ['.'] := by
    rw [List.map_cons, List.head?_cons, Option.some.injEq]
    exact hdot
  rw [components_of_not_root (p := ⟨"/".intercalate (n :: ns)⟩) hnil hroot,
    splitSlash_intercalate h, if_neg hfront, filterMap_ofPart h, List.nil_append]

/-! ### Names in a report -/

/-- The components of a path that are names are names. -/
theorem isName_of_mem_components {p : Path} {s : String} (h : .name s ∈ p.components) :
    IsName s := by
  have hparts : ∀ text : List Char,
      Component.name s ∈ (splitSlash text).filterMap Component.ofPart → IsName s := by
    intro text hmem
    obtain ⟨part, hpart, hs⟩ := List.mem_filterMap.1 hmem
    exact isName_of_ofPart (not_mem_of_mem_splitSlash hpart) hs
  unfold components at h
  split at h
  · cases h
  · rcases List.mem_cons.1 h with h | h
    · cases h
    · exact hparts _ h
  · rcases List.mem_append.1 h with h | h
    · split at h
      · cases List.mem_singleton.1 h
      · cases h
    · exact hparts _ h

/-- Only names are made of names. -/
theorem isName_of_mem_namesFrom {dir : List String} {p : Path} (hdir : ∀ s ∈ dir, IsName s) :
    ∀ s ∈ namesFrom dir p, IsName s := by
  have hfold : ∀ (cs : List Component) (dir : List String), (∀ s ∈ dir, IsName s) →
      (∀ s, .name s ∈ cs → IsName s) → ∀ s ∈ cs.foldl step dir, IsName s := by
    intro cs
    induction cs with
    | nil => exact fun dir hdir _ => hdir
    | cons c cs ih =>
      intro dir hdir hcs
      refine ih (step dir c) (fun s hs => ?_) fun s hs => hcs s (List.mem_cons_of_mem c hs)
      cases c with
      | root => cases hs
      | here => exact hdir s hs
      | parent => exact hdir s ((List.dropLast_sublist dir).subset hs)
      | name text =>
        rcases List.mem_append.1 hs with hs | hs
        · exact hdir s hs
        · rw [List.mem_singleton.1 hs]
          exact hcs text List.mem_cons_self
  exact hfold p.components dir hdir fun s hs => isName_of_mem_components hs

theorem foldl_step_name (dir ns : List String) :
    (ns.map Component.name).foldl step dir = dir ++ ns := by
  induction ns generalizing dir with
  | nil => rw [List.map_nil, List.foldl_nil, List.append_nil]
  | cons n ns ih =>
    rw [List.map_cons, List.foldl_cons, ih, step, List.append_assoc, List.singleton_append]

theorem below_eq_some {dir names rest : List String} (h : below dir names = some rest) :
    names = dir ++ rest := by
  induction dir generalizing names with
  | nil =>
    rw [below] at h
    exact Option.some.inj h
  | cons d dir ih =>
    cases names with
    | nil => cases h
    | cons n names =>
      rw [below] at h
      split at h
      · rename_i heq
        rw [heq, ih h, List.cons_append]
      · cases h

/-- The name in a report leads where the path leads. -/
theorem namesFrom_relativize (cwd p : Path) :
    namesFrom cwd.names ⟨p.relativize (some cwd)⟩ = namesFrom cwd.names p := by
  have hnames : ∀ s ∈ namesFrom cwd.names p, IsName s :=
    isName_of_mem_namesFrom (isName_of_mem_namesFrom fun s hs => absurd hs List.not_mem_nil)
  rw [relativize]
  split
  · rename_i n ns hbelow
    rw [below_eq_some hbelow] at hnames ⊢
    have hrest : ∀ s ∈ n :: ns, IsName s := fun s hs =>
      hnames s (List.mem_append_right _ hs)
    rw [namesFrom, components_intercalate hrest, foldl_step_name]
  · rfl

/-! ### Absolute paths -/

/-- The components of an absolute path are the root and its names. -/
theorem components_ofNames {names : List String} (h : ∀ s ∈ names, IsName s) :
    (ofNames names).components = .root :: names.map .name := by
  have hspelling : (ofNames names).spelling.toList = '/' :: ("/".intercalate names).toList := by
    simp [ofNames]
  rw [components_of_root hspelling]
  cases names with
  | nil => rfl
  | cons n ns =>
    rw [splitSlash_intercalate h, filterMap_ofPart h]

/-- An absolute path leads to its names, wherever it is read. -/
theorem namesFrom_ofNames {names : List String} (h : ∀ s ∈ names, IsName s) (dir : List String) :
    namesFrom dir (ofNames names) = names := by
  rw [namesFrom, components_ofNames h, List.foldl_cons, foldl_step_name]
  rfl

/-- Whether a path is an absolute one, without `.`, `..` and empty parts. -/
def IsNormal (p : Path) : Prop := ∃ names : List String, (∀ s ∈ names, IsName s) ∧ p = ofNames names

theorem isName_of_mem_names {p : Path} {s : String} (hs : s ∈ p.names) : IsName s :=
  isName_of_mem_namesFrom (fun _ h => absurd h List.not_mem_nil) s hs

theorem isNormal_normalize (cwd p : Path) : (p.normalize (some cwd)).IsNormal :=
  ⟨_, isName_of_mem_namesFrom fun _ hs => isName_of_mem_names hs, rfl⟩

namespace IsNormal

variable {p q : Path}

/-- A normal path is the one of its names. -/
theorem ofNames_names (h : p.IsNormal) : ofNames p.names = p := by
  obtain ⟨names, hnames, rfl⟩ := h
  rw [Path.names, namesFrom_ofNames hnames]

/-- Normal paths with the same components are spelled alike. -/
theorem eq_of_same (hp : p.IsNormal) (hq : q.IsNormal) (h : p.same q = true) : p = q := by
  have hnames : p.names = q.names := congrArg (List.foldl step []) (beq_iff_eq.1 h)
  rw [← hp.ofNames_names, ← hq.ofNames_names, hnames]

end IsNormal

end Path
end WebLint
