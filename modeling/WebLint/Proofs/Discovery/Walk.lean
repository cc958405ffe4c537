import WebLint.Discovery.Walk
import WebLint.Proofs.Discovery.Walker
import WebLint.Proofs.Path.Order

/-!
# The walker of the program

The walker of the program keeps the promises that are assumed of walkers, whatever rules its user
has: it is one of those that what is proved of discovery is about.

What is proved here:

* `mem_entriesBelow_iff` — the entries below a directory;
* `mem_placesFrom_iff` — the places it comes to are those it should come to;
* `isLocal_walker`, `follows_walker` — it walks paths independently, and goes by the rules.
-/

namespace WebLint

/-! ## Files -/

namespace Files

/-- Names lead somewhere when they are on the way to a file, to a listed directory or to the
working directory. -/
theorem isSome_found?_iff {fs : Files} {names : List String} : (fs.found? names).isSome = true ↔
    ∃ long ∈ fs.cwd.names :: fs.directories ++ fs.entries.map (·.1), names <+: long := by
  have hfile : (fs.file? names).isSome = true ↔ ∃ e ∈ fs.entries, e.1 = names := by
    simp [file?]
  have hdirectory : fs.isDirectory names = true ↔
      (∃ d ∈ fs.cwd.names :: fs.directories, names <+: d) ∨
        ∃ e ∈ fs.entries, names <+: e.1 ∧ e.1.length ≠ names.length := by
    simp [isDirectory]
  have hfound : (fs.found? names).isSome = true ↔
      fs.isDirectory names = true ∨ (fs.file? names).isSome = true := by
    rw [found?]
    split <;> simp [*]
  rw [hfound, hdirectory, hfile]
  constructor
  · rintro ((⟨d, hd, hfront⟩ | ⟨e, he, hfront, -⟩) | ⟨e, he, rfl⟩)
    · exact ⟨d, List.mem_append_left _ hd, hfront⟩
    · exact ⟨e.1, List.mem_append_right _ (List.mem_map_of_mem he), hfront⟩
    · exact ⟨e.1, List.mem_append_right _ (List.mem_map_of_mem he), List.prefix_rfl⟩
  · rintro ⟨long, hlong, hfront⟩
    rcases List.mem_append.1 hlong with hlong | hlong
    · exact Or.inl (Or.inl ⟨long, hlong, hfront⟩)
    · obtain ⟨e, he, rfl⟩ := List.mem_map.1 hlong
      by_cases hlength : e.1.length = names.length
      · exact Or.inr ⟨e, he, (hfront.eq_of_length hlength.symm).symm⟩
      · exact Or.inl (Or.inr ⟨e, he, hfront, hlength⟩)

theorem WellNamed.isName {fs : Files} (hfs : fs.WellNamed) {names : List String}
    (h : (fs.found? names).isSome = true) : ∀ s ∈ names, Path.IsName s := by
  obtain ⟨long, hlong, hfront⟩ := isSome_found?_iff.1 h
  suffices hnamed : ∀ s ∈ long, Path.IsName s from fun s hs => hnamed s (hfront.subset hs)
  rcases List.mem_append.1 hlong with hlong | hlong
  · rcases List.mem_cons.1 hlong with rfl | hlong
    · exact fun s hs => Path.isName_of_mem_names hs
    · exact hfs.directories long hlong
  · obtain ⟨e, he, rfl⟩ := List.mem_map.1 hlong
    exact hfs.entries e he

/-- A normal path leads to its own names. -/
theorem found?_of_lookup {fs : Files} {p : Path} {e : Entry} (hp : p.IsNormal)
    (h : fs.lookup p = .ok e) : fs.found? p.names = some e := by
  rw [lookup] at h
  split at h
  · cases h
  rename_i names hnames
  obtain ⟨own, hown, rfl⟩ := hp
  have hresolve := resolve_eq_namesFrom hnames
  rw [Path.namesFrom_ofNames hown] at hresolve
  rw [Path.names, Path.namesFrom_ofNames hown, ← hresolve]
  split at h
  · rename_i hfound
    rw [hfound, Except.ok.inj h]
  · cases h

theorem isDirectory_of_lookup {fs : Files} {p : Path} (hp : p.IsNormal)
    (h : fs.lookup p = .ok .directory) : fs.isDirectory p.names = true := by
  have hfound := found?_of_lookup hp h
  rw [found?] at hfound
  split at hfound
  · assumption
  · simp at hfound

theorem isDirectory_of_lookup_file {fs : Files} {p : Path} {c : Contents} (hp : p.IsNormal)
    (h : fs.lookup p = .ok (.file c)) : fs.isDirectory p.names = false := by
  have hfound := found?_of_lookup hp h
  rw [found?] at hfound
  split at hfound
  · cases hfound
  · rename_i hno
    exact Bool.eq_false_iff.2 hno

/-- What a normal path leads to is a file when it is no directory. -/
theorem exists_of_lookup {fs : Files} {p : Path} {e : Entry} (hp : p.IsNormal)
    (h : fs.lookup p = .ok e) (hfile : fs.isDirectory p.names = false) :
    ∃ c, fs.lookup p = .ok (.file c) := by
  cases e with
  | file c => exact ⟨c, h⟩
  | directory =>
    rw [isDirectory_of_lookup hp h] at hfile
    cases hfile

end Files

/-! ## Entries -/

namespace Walk

variable {own : List IgnoreRule} {fs : Files} {s : WalkSettings} {start names : List String}

theorem isName_of_mem_entriesBelow (h : names ∈ entriesBelow fs start) :
    ∀ s ∈ names, Path.IsName s := by
  obtain ⟨p, -, rfl⟩ := List.mem_map.1 h
  exact fun s hs => Path.isName_of_mem_names hs

/-- All names on the way to a file, to a listed directory or to the working directory. -/
theorem mem_prefixes_iff {ls : List (List String)} :
    names ∈ (ls.flatMap fun long => (List.range (long.length + 1)).map fun n => long.take n) ↔
      ∃ long ∈ ls, names <+: long := by
  simp only [List.mem_flatMap, List.mem_map, List.mem_range]
  refine exists_congr fun long => and_congr_right fun _ => ⟨?_, fun h => ?_⟩
  · rintro ⟨n, -, rfl⟩
    exact List.take_prefix n long
  · exact ⟨names.length, by have := h.length_le; omega, (List.prefix_iff_eq_take.1 h).symm⟩

/-- The entries below a directory are those something is found at. -/
theorem mem_entriesBelow_iff (hfs : fs.WellNamed) :
    names ∈ entriesBelow fs start ↔ SkipRules.IsBelow fs start names := by
  have hbelow : ∀ ms : List String,
      ms ∈ ((fs.cwd.names :: fs.directories ++ fs.entries.map (·.1)).flatMap fun long =>
          (List.range (long.length + 1)).map fun n => long.take n).filter
        (fun ms => start.isPrefixOf ms && decide (start.length < ms.length)) ↔
        SkipRules.IsBelow fs start ms := by
    intro ms
    rw [List.mem_filter, mem_prefixes_iff, ← Files.isSome_found?_iff, Bool.and_eq_true,
      List.isPrefixOf_iff_prefix, decide_eq_true_eq]
    exact ⟨fun ⟨hfound, hfront, hproper⟩ => ⟨hfront, hproper, hfound⟩,
      fun ⟨hfront, hproper, hfound⟩ => ⟨hfound, hfront, hproper⟩⟩
  -- names that make a path are those the path leads to
  have hnames : ∀ ms : List String, SkipRules.IsBelow fs start ms → (Path.ofNames ms).names = ms :=
    fun ms h => Path.namesFrom_ofNames (hfs.isName h.found) []
  constructor
  · intro h
    obtain ⟨p, hp, rfl⟩ := List.mem_map.1 h
    obtain ⟨ms, hms, rfl⟩ := List.mem_map.1 (Path.mem_of_mem_sortUnique hp)
    have hms := (hbelow ms).1 hms
    rwa [hnames ms hms]
  · intro h
    obtain ⟨p, hp, hsame⟩ :=
      Path.exists_mem_sortUnique (List.mem_map_of_mem (f := Path.ofNames) ((hbelow names).2 h))
    refine List.mem_map.2 ⟨p, hp, ?_⟩
    rw [Path.names, Path.namesFrom, ← Path.components_of_same hsame]
    exact hnames names h

/-- A walk comes to an entry when nothing on the way to it is skipped, the entry included. -/
theorem isReached_iff : isReached own fs s start names = true ↔
    ∀ m, start.length < m → m ≤ names.length → isSkipped own fs s start (names.take m) = false := by
  rw [isReached, List.all_eq_true]
  constructor
  · intro h m hm hle
    have hskipped := h (m - start.length - 1) (List.mem_range.2 (by omega))
    rw [show start.length + (m - start.length - 1) + 1 = m by omega] at hskipped
    simpa using hskipped
  · intro h n hn
    have hn := List.mem_range.1 hn
    simpa using h (start.length + n + 1) (by omega) (by omega)

/-! ## Skipped entries -/

/-- The directory that holds an entry is the nearest one above it. -/
theorem exists_parents_eq (h : names ≠ []) : ∃ above, parents names = names.dropLast :: above := by
  obtain ⟨n, hn⟩ := Nat.exists_eq_succ_of_ne_zero (mt List.length_eq_zero_iff.1 h)
  refine ⟨(List.range n).reverse.map fun m => names.take m, ?_⟩
  rw [parents, hn, List.range_succ, List.reverse_append, List.reverse_singleton,
    List.singleton_append, List.map_cons, List.dropLast_eq_take, hn]
  rfl

/-- Below the start of a walk its rules count. -/
theorem exists_directoriesFor_eq (h : SkipRules.IsBelow fs start names) :
    ∃ above, directoriesFor s start names = names.dropLast :: above := by
  have hlength := h.proper
  have hnames : names ≠ [] := List.ne_nil_of_length_pos (Nat.zero_lt_of_lt hlength)
  obtain ⟨above, habove⟩ := exists_parents_eq hnames
  have hfront : start <+: names.dropLast := by
    rw [List.dropLast_eq_take, List.prefix_take_iff]
    exact ⟨h.front, by omega⟩
  rw [directoriesFor, habove, List.filter_cons_of_pos (by simp [hfront])]
  exact ⟨_, rfl⟩

/-- What the globs of a walk decide. -/
theorem isSkipped_of_lastMatch {o : Override}
    (h : s.lastMatch (isMatch s.root names (fs.isDirectory names)) = some o) :
    isSkipped own fs s start names = !o.isWanted := by
  rw [isSkipped, overrideVerdict, h]
  cases o <;> rfl

/-- What the rules next to an entry ignore. -/
theorem isSkipped_of_ignored (hbelow : SkipRules.IsBelow fs start names)
    (hgit : s.gitIgnore = true)
    (h : s.lastMatch (isMatch s.root names (fs.isDirectory names)) = none)
    (hignored : fileVerdict fs (gitignoreOf names.dropLast) names.dropLast names
      (fs.isDirectory names) = .ignored) : isSkipped own fs s start names = true := by
  obtain ⟨above, habove⟩ := exists_directoriesFor_eq (s := s) hbelow
  have hrules : ruleVerdict own fs s start names (fs.isDirectory names) = .ignored := by
    simp only [ruleVerdict, hgit, if_true, nearestVerdict, habove, List.map_cons, List.foldr_cons,
      hignored]
    rfl
  rw [isSkipped, hrules, overrideVerdict, h]
  cases isSelective s && !fs.isDirectory names <;> rfl

/-! ## The promises -/

/-- The rules the walker goes by. -/
def rules (own : List IgnoreRule) : SkipRules where
  isMatch := isMatch
  ignores fs directory names isDirectory :=
    fileVerdict fs (gitignoreOf directory) directory names isDirectory == .ignored
  skips := isSkipped own

variable {root : Path} {place : Place}

theorem isNormal_of_mem_placesFrom (hroot : root.IsNormal) (h : place ∈ placesFrom own fs s root) :
    place.path.IsNormal := by
  rw [placesFrom] at h
  split at h
  · cases h
  · rw [List.mem_singleton.1 h]
    exact hroot
  · rcases List.mem_cons.1 h with rfl | h
    · exact hroot
    · obtain ⟨names, hnames, rfl⟩ := List.mem_map.1 h
      exact ⟨names, isName_of_mem_entriesBelow (List.mem_filter.1 hnames).1, rfl⟩

/-- It comes to the places that it should come to. -/
theorem mem_placesFrom_iff (hfs : fs.WellNamed) (hroot : root.IsNormal) :
    place ∈ placesFrom own fs s root ↔ (rules own).Comes fs s root place := by
  rw [placesFrom]
  cases hlookup : fs.lookup root with
  | error e =>
    refine iff_of_false List.not_mem_nil fun h => ?_
    cases h with
    | atStart hfound => rw [hlookup] at hfound; cases hfound
    | below hdirectory => rw [hlookup] at hdirectory; cases hdirectory
  | ok e =>
    cases e with
    | file c =>
      have hself := Files.isDirectory_of_lookup_file hroot hlookup
      rw [List.mem_singleton, ← hself]
      constructor
      · rintro rfl
        exact .atStart hlookup
      · intro h
        cases h with
        | atStart => rfl
        | below hdirectory => rw [hlookup] at hdirectory; cases hdirectory
    | directory =>
      have hself := Files.isDirectory_of_lookup hroot hlookup
      rw [List.mem_cons, ← hself]
      constructor
      · rintro (rfl | h)
        · exact .atStart hlookup
        · obtain ⟨names, hnames, rfl⟩ := List.mem_map.1 h
          obtain ⟨hentry, hreached⟩ := List.mem_filter.1 hnames
          exact .below hlookup ((mem_entriesBelow_iff hfs).1 hentry) (isReached_iff.1 hreached)
      · intro h
        cases h with
        | atStart => exact Or.inl rfl
        | @below names _ hbelow hway =>
          exact Or.inr (List.mem_map.2 ⟨names, List.mem_filter.2
            ⟨(mem_entriesBelow_iff hfs).2 hbelow, isReached_iff.2 hway⟩, rfl⟩)

/-- What the walker hands in, complaints apart. -/
theorem mem_walk_walker_iff {paths : List Path} : .ok place ∈ (walker own).walk fs s paths ↔
    ∃ root ∈ paths, place ∈ placesFrom own fs s root := by
  simp [walker]

theorem isLocal_walker (own : List IgnoreRule) : (walker own).IsLocal where
  apart fs s paths place := by simp only [mem_walk_walker_iff, List.mem_singleton, exists_eq_left]
  normal hstart h := by
    obtain ⟨root, hroot, hplace⟩ := mem_walk_walker_iff.1 h
    rw [List.mem_singleton.1 hroot] at hplace
    exact isNormal_of_mem_placesFrom hstart hplace

/-- **The walker of the program keeps its promises**, whatever rules its user has. -/
theorem follows_walker (own : List IgnoreRule) : (walker own).Follows (rules own) where
  toIsLocal := isLocal_walker own
  comes_iff hfs hstart := by
    simp only [mem_walk_walker_iff, List.mem_singleton, exists_eq_left]
    exact mem_placesFrom_iff hfs hstart
  decides := isSkipped_of_lastMatch
  obeys hbelow hgit _ _ hsilent h := isSkipped_of_ignored hbelow hgit hsilent (beq_iff_eq.1 h)

end Walk
end WebLint
