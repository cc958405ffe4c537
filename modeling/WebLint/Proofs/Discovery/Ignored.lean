import WebLint.Proofs.Discovery
import WebLint.Proofs.Discovery.Walk

/-!
# Ignored files

The rules of a `.gitignore` file are asked about an entry only where the globs of the walk are
silent.  Without a pattern these globs say what is never wanted, and nothing else, so a walk
through a directory finds no ignored file.  A pattern that matches a file, however, says that
it is wanted, and then no rule is asked.

What is proved here, of any walker that goes by its rules as it is documented:

* `eq_some_of_mem_overridesOf` — only the pattern of a walk says what is wanted;
* `not_ignored_or_wanted` — an ignored file is skipped unless that pattern wants it;
* `not_isIgnored_iff` — so nothing ignored is found, but for what is named, exactly when no
  glob picks an ignored file.
-/

namespace WebLint
namespace Discovery

variable {w : Walker} {r : SkipRules} {fs : Files}

/-! ## The globs of a walk -/

theorem value_addExclusion_subset {root : Path} {pattern : String} {o : Override}
    (h : o ∈ (addExclusion w root pattern).value) : o = .unwanted pattern := by
  rw [addExclusion] at h
  split at h
  · exact List.mem_singleton.1 h
  · cases h

theorem value_build_subset {root : Path} {globs : List Override} :
    (build w root globs).value ⊆ globs := by
  rw [build]
  split
  · exact List.Subset.refl globs
  · exact List.nil_subset globs

/-- Only the pattern of a walk says what is wanted. -/
theorem eq_some_of_mem_overridesOf {root : Path} {pattern : Option String} {q : String}
    {overrides : List Override} (h : (overridesOf w root pattern).value = some overrides)
    (hq : .wanted q ∈ overrides) : pattern = some q := by
  rw [overridesOf, Logged.value_bind] at h
  cases hwanted : (addPattern w root pattern).value with
  | none =>
    rw [hwanted] at h
    cases h
  | some wanted =>
    simp only [hwanted, Logged.value_bind, Logged.value_pure, Logged.value_mapM] at h
    obtain rfl := Option.some.inj h
    rcases List.mem_append.1 (value_build_subset hq) with hq | hq
    · cases pattern with
      | none =>
        obtain rfl := Option.some.inj hwanted
        cases hq
      | some pattern =>
        rw [addPattern] at hwanted
        split at hwanted
        · obtain rfl := Option.some.inj hwanted
          rw [Override.wanted.inj (List.mem_singleton.1 hq)]
        · cases hwanted
    · obtain ⟨_, hmem, hq⟩ := List.mem_flatten.1 hq
      obtain ⟨e, -, rfl⟩ := List.mem_map.1 hmem
      cases value_addExclusion_subset hq

/-! ## Ignored files -/

/-- Whether a file is ignored by the `.gitignore` file of the directory that holds it. -/
def IsIgnored (r : SkipRules) (fs : Files) (names : List String) : Prop :=
  r.ignores fs names.dropLast names false = true

instance (r : SkipRules) (fs : Files) (names : List String) : Decidable (IsIgnored r fs names) :=
  inferInstanceAs (Decidable (_ = _))

/-- An ignored file is skipped, unless the pattern of the walk says that it is wanted. -/
theorem not_ignored_or_wanted (hw : w.Follows r) {root : Path} {pattern : Option String}
    {overrides : List Override} {start names : List String}
    (hoverrides : (overridesOf w root pattern).value = some overrides)
    (hbelow : SkipRules.IsBelow fs start names) (hfile : fs.isDirectory names = false)
    (hskips : r.skips fs (settings root overrides) start names = false) :
    ¬ IsIgnored r fs names ∨
      ∃ q, pattern = some q ∧ r.decider fs (settings root overrides) names = some (.wanted q) := by
  cases hdecider : r.decider fs (settings root overrides) names with
  | none =>
    refine Or.inl fun hignored => ?_
    have hobeyed := hw.obeys hbelow (s := settings root overrides) rfl rfl rfl hdecider
      (by rw [hfile]; exact hignored)
    rw [hskips] at hobeyed
    cases hobeyed
  | some o =>
    rw [hw.decides hdecider] at hskips
    cases o with
    | unwanted q => cases hskips
    | wanted q =>
      have hq : .wanted q ∈ overrides := List.mem_reverse.1 (List.mem_of_find?_eq_some hdecider)
      exact Or.inr ⟨q, eq_some_of_mem_overridesOf hoverrides hq, rfl⟩

/-- Whether a walk with a pattern picks a file below the directory at which it starts: the pattern
is the last of the globs that match it, some checker handles it, and no directory on the way to it
is skipped. -/
structure Picks (r : SkipRules) (fs : Files) (s : WalkSettings) (pattern : String)
    (start names : List String) : Prop where
  /-- The file lies below the directory. -/
  entry : SkipRules.IsBelow fs start names
  /-- It is no directory. -/
  file : fs.isDirectory names = false
  /-- Some checker handles it. -/
  handled : (Path.ofNames names).isLintable = true
  /-- The walk comes to the directory that holds it. -/
  way : ∀ m, start.length < m → m < names.length → r.skips fs s start (names.take m) = false
  /-- The pattern matches it, and no exclusion behind the pattern does. -/
  wanted : r.decider fs s names = some (.wanted pattern)

/-- A walk comes to the files that its pattern picks. -/
theorem Picks.walkFinds (hw : w.Follows r) (hfs : fs.WellNamed) {s : WalkSettings}
    {pattern : String} {start : Path} {names : List String} (hstart : start.IsNormal)
    (hdirectory : fs.lookup start = .ok .directory) (h : Picks r fs s pattern start.names names) :
    WalkFinds w fs s true start (Path.ofNames names) := by
  refine ⟨_, (hw.comes_iff hfs hstart).2 (.below hdirectory h.entry fun m hm hle => ?_),
    ⟨h.file, Or.inl h.handled⟩, rfl⟩
  rcases Nat.lt_or_eq_of_le hle with hlt | rfl
  · exact h.way m hm hlt
  · rw [List.take_length, hw.decides h.wanted]
    rfl

/-! ## Files that are found -/

/-- Whether a file is itself an argument. -/
def IsGiven (fs : Files) (args : List String) (p : Path) : Prop :=
  ∃ arg ∈ args, splitGlob fs arg = none ∧ p = Path.normalize (some fs.cwd) ⟨arg⟩ ∧
    ∃ c, fs.lookup p = .ok (.file c)

/-- Whether an argument is a glob that picks a file: below the directory at which it starts, or
at its start, where a file may be instead of a directory. -/
inductive PickedBy (w : Walker) (r : SkipRules) (fs : Files) (arg : String) : Path → Prop
  | below {given root : Path} {pattern : String} {overrides : List Override}
      {names : List String} (harg : splitGlob fs arg = some (given, pattern))
      (hroot : root = given.normalize (some fs.cwd))
      (hoverrides : (overridesOf w root (some pattern)).value = some overrides)
      (hdirectory : fs.lookup root = .ok .directory)
      (hpicks : Picks r fs (settings root overrides) pattern root.names names) :
      PickedBy w r fs arg (Path.ofNames names)
  | atStart {given root : Path} {pattern : String} {overrides : List Override} {c : Contents}
      (harg : splitGlob fs arg = some (given, pattern))
      (hroot : root = given.normalize (some fs.cwd))
      (hoverrides : (overridesOf w root (some pattern)).value = some overrides)
      (hfile : fs.lookup root = .ok (.file c)) (hhandled : root.isLintable = true) :
      PickedBy w r fs arg root

variable {arg : String} {p : Path}

/-- What a glob picks is found. -/
theorem PickedBy.foundBy (hw : w.Follows r) (hfs : fs.WellNamed) (h : PickedBy w r fs arg p) :
    FoundBy w fs arg p := by
  cases h with
  | @below given root pattern overrides names harg hroot hoverrides hdirectory hpicks =>
    have hnormal : root.IsNormal := hroot ▸ Path.isNormal_normalize _ _
    exact .glob harg hroot hoverrides (hpicks.walkFinds hw hfs hnormal hdirectory)
  | @atStart given root pattern overrides c harg hroot hoverrides hfile hhandled =>
    have hnormal : p.IsNormal := hroot ▸ Path.isNormal_normalize _ _
    exact .glob harg hroot hoverrides ⟨_, (hw.comes_iff hfs hnormal).2 (.atStart hfile),
      ⟨Files.isDirectory_of_lookup_file hnormal hfile, Or.inl hhandled⟩, rfl⟩

/-- What an argument leads to is a file that it names, or one below a directory that it names,
and then not ignored, or one that it picks as a glob. -/
theorem FoundBy.cases_arg (hw : w.Follows r) (hfs : fs.WellNamed) (h : FoundBy w fs arg p) :
    IsGiven fs [arg] p ∨ ¬ IsIgnored r fs p.names ∨ PickedBy w r fs arg p := by
  cases h with
  | literal harg hroot hoverrides hfinds =>
    obtain ⟨place, hplace, htaken, rfl⟩ := hfinds
    have hnormal := Path.isNormal_normalize fs.cwd ⟨arg⟩
    cases (hw.comes_iff hfs hnormal).1 hplace with
    | atStart hfound =>
      obtain ⟨c, hfile⟩ := Files.exists_of_lookup hnormal hfound htaken.file
      exact Or.inl ⟨arg, List.mem_singleton_self arg, harg, rfl, c, hfile⟩
    | @below names hdirectory hbelow hway =>
      have hskips := hway names.length hbelow.proper (Nat.le_refl _)
      rw [List.take_length] at hskips
      refine Or.inr (Or.inl ?_)
      rw [Path.names, Path.namesFrom_ofNames (hfs.isName hbelow.found)]
      rcases not_ignored_or_wanted hw hoverrides hbelow htaken.file hskips with hnot | ⟨q, hq, -⟩
      · exact hnot
      · cases hq
  | @glob given root pattern overrides harg hroot hoverrides hfinds =>
    obtain ⟨place, hplace, htaken, rfl⟩ := hfinds
    have hnormal : root.IsNormal := hroot ▸ Path.isNormal_normalize _ _
    have hhandled : place.path.isLintable = true := by
      rcases htaken.handled with h | ⟨-, h⟩
      · exact h
      · cases h
    cases (hw.comes_iff hfs hnormal).1 hplace with
    | atStart hfound =>
      obtain ⟨c, hfile⟩ := Files.exists_of_lookup hnormal hfound htaken.file
      exact Or.inr (Or.inr (.atStart harg hroot hoverrides hfile hhandled))
    | @below names hdirectory hbelow hway =>
      have hskips := hway names.length hbelow.proper (Nat.le_refl _)
      rw [List.take_length] at hskips
      refine Or.inr ?_
      rw [Path.names, Path.namesFrom_ofNames (hfs.isName hbelow.found)]
      rcases not_ignored_or_wanted hw hoverrides hbelow htaken.file hskips with hnot | ⟨q, hq, h⟩
      · exact Or.inl hnot
      · obtain rfl := Option.some.inj hq
        exact Or.inr (.below harg hroot hoverrides hdirectory
          ⟨hbelow, htaken.file, hhandled, fun m hm hlt => hway m hm (Nat.le_of_lt hlt), h⟩)

/-- **Only globs find ignored files.**  No file that is found, other than one that is itself an
argument, is ignored by the `.gitignore` file of the directory that holds it, exactly when no
glob among the arguments picks such a file. -/
theorem not_isIgnored_iff {w : Walker} {r : SkipRules} (hw : w.Follows r) (fs : Files)
    (args : List String) (hfs : fs.WellNamed) :
    (∀ p ∈ (discover w fs args).value.paths, ¬ IsGiven fs args p → ¬ IsIgnored r fs p.names) ↔
      ∀ arg ∈ args, ∀ p, PickedBy w r fs arg p → ¬ IsGiven fs args p →
        ¬ IsIgnored r fs p.names := by
  constructor
  · intro h arg harg p hpicked
    exact h p ((mem_paths_iff hw.toIsLocal).2 ⟨arg, harg, hpicked.foundBy hw hfs⟩)
  · intro h p hp hgiven
    obtain ⟨arg, harg, hfound⟩ := (mem_paths_iff hw.toIsLocal).1 hp
    rcases hfound.cases_arg hw hfs with hnamed | hnot | hpicked
    · obtain ⟨_, hmem, hrest⟩ := hnamed
      rw [List.mem_singleton.1 hmem] at hrest
      exact absurd ⟨arg, harg, hrest⟩ hgiven
    · exact hnot
    · exact h arg harg p hpicked hgiven

/-! ### An ignored script -/

/-- A directory with one script, which is ignored. -/
def ignoredScript : Files :=
  ⟨⟨"/w"⟩, [(["w", ".gitignore"], .text "a.js\n".toList), (["w", "a.js"], .text [])], [], []⟩

theorem wellNamed_ignoredScript : ignoredScript.WellNamed where
  entries := by decide +kernel
  directories := by decide +kernel

/-- As a directory that is walked it holds nothing to check. -/
theorem not_isIgnored_ignoredScript : (Walk.walker []).Follows (Walk.rules []) ∧
    ignoredScript.WellNamed ∧
      ∀ p ∈ (discover (Walk.walker []) ignoredScript ["."]).value.paths,
        ¬ IsGiven ignoredScript ["."] p → ¬ IsIgnored (Walk.rules []) ignoredScript p.names := by
  have hw := Walk.follows_walker []
  refine ⟨hw, wellNamed_ignoredScript, (not_isIgnored_iff hw _ _ wellNamed_ignoredScript).2 ?_⟩
  intro arg harg p hpicked
  have hliteral : splitGlob ignoredScript "." = none := by decide +kernel
  rw [List.mem_singleton.1 harg] at hpicked
  cases hpicked with
  | below harg => rw [hliteral] at harg; cases harg
  | atStart harg => rw [hliteral] at harg; cases harg

/-- A glob picks the ignored script. -/
theorem pickedBy_star : PickedBy (Walk.walker []) (Walk.rules []) ignoredScript "*.js"
    (Path.ofNames ["w", "a.js"]) := by
  have harg : splitGlob ignoredScript "*.js" = some (⟨"."⟩, "*.js") := by decide +kernel
  have hroot : ⟨"/w"⟩ = Path.normalize (some ignoredScript.cwd) ⟨"."⟩ := by decide +kernel
  have hoverrides : (overridesOf (Walk.walker []) ⟨"/w"⟩ (some "*.js")).value =
      some (.wanted "*.js" :: exclusions.map .unwanted) := by decide +kernel
  have hdirectory : ignoredScript.lookup ⟨"/w"⟩ = .ok .directory := by rfl
  have hstart : Path.names ⟨"/w"⟩ = ["w"] := by decide +kernel
  refine .below harg hroot hoverrides hdirectory ?_
  rw [hstart]
  have hbelow : SkipRules.IsBelow ignoredScript ["w"] ["w", "a.js"] :=
    ⟨by decide, by decide, by decide +kernel⟩
  refine ⟨hbelow, by decide +kernel, by decide +kernel, fun m hm hlt => ?_, by decide +kernel⟩
  simp only [List.length_cons, List.length_nil] at hm hlt
  omega

/-- So it is found, though it is not itself an argument. -/
theorem finds_ignoredScript :
    ¬ ∀ p ∈ (discover (Walk.walker []) ignoredScript ["*.js"]).value.paths,
      ¬ IsGiven ignoredScript ["*.js"] p → ¬ IsIgnored (Walk.rules []) ignoredScript p.names := by
  have hw := Walk.follows_walker []
  intro h
  refine h _ ((mem_paths_iff hw.toIsLocal).2 ⟨"*.js", List.mem_singleton_self _,
    pickedBy_star.foundBy hw wellNamed_ignoredScript⟩) ?_ (by decide +kernel)
  rintro ⟨arg, harg, hliteral, -⟩
  rw [List.mem_singleton.1 harg] at hliteral
  exact absurd hliteral (by decide +kernel)

end Discovery
end WebLint
