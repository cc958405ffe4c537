import WebLint.Plan
import WebLint.Proofs.Path.Extension
import WebLint.Proofs.Path.Order

/-!
# Sharing out files

The files of a plan are shared out by their extensions, and each checker gets
its own in order.  Only markup goes to both checkers.  Whether some file does is
found by looking the files of the one checker up among those of the other, by
halving; that finds what is there because the paths are in order.

What is proved here:

* `search_eq_any` — looking a path up by halving finds it exactly when it is
  there;
* `hasSharedPaths_iff` — the checkers share a file exactly when some given file
  is markup;
* `shares_out` — which files each checker gets, in which order, and when they
  share one.
-/

namespace WebLint

/-! ## Looking paths up -/

namespace Path

/-- Whether the path at an index of a list is the same as `p`. -/
def StandsAt (ps : List Path) (p : Path) (i : Nat) : Prop :=
  ∃ q, ps[i]? = some q ∧ compare q p = .eq

/-- Of increasing paths the one at the larger index is greater. -/
theorem compare_lt_of_index {ps : List Path} (h : ps.Pairwise fun p q => compare p q = .lt)
    {i j : Nat} {p q : Path} (hp : ps[i]? = some p) (hq : ps[j]? = some q) (hij : i < j) :
    compare p q = .lt := by
  obtain ⟨hi, rfl⟩ := List.getElem?_eq_some_iff.1 hp
  obtain ⟨hj, rfl⟩ := List.getElem?_eq_some_iff.1 hq
  exact List.pairwise_iff_getElem.1 h i j hi hj hij

/-- A path stands among the `size` paths from an index on exactly when halving
finds it. -/
theorem searchFrom_iff {ps : List Path} (h : ps.Pairwise fun p q => compare p q = .lt) (p : Path)
    (base size : Nat) (hsize : 0 < size) (hbound : base + size ≤ ps.length) :
    searchFrom ps p base size = true ↔ ∃ i, base ≤ i ∧ i < base + size ∧ StandsAt ps p i := by
  induction size using Nat.strongRecOn generalizing base with
  | _ size ih =>
    rw [searchFrom]
    by_cases hone : 1 < size
    · have hget := List.getElem?_eq_getElem (show base + size / 2 < ps.length by omega)
      rw [if_pos hone]
      simp only [hget]
      split
      · -- the path in the middle is too great, and so are those behind it
        rename_i hgt
        rw [ih (size - size / 2) (by omega) base (by omega) (by omega)]
        constructor
        · rintro ⟨i, hle, hlt, hi⟩
          exact ⟨i, hle, by omega, hi⟩
        · rintro ⟨i, hle, hlt, q, hq, heq⟩
          refine ⟨i, hle, ?_, q, hq, heq⟩
          refine Nat.lt_of_not_le fun hbehind => ?_
          rcases Nat.lt_or_eq_of_le (show base + size / 2 ≤ i by omega) with hlater | rfl
          · have hqm := compare_lt_of_index h hget hq hlater
            have hmp : compare ps[base + size / 2] p = .lt :=
              Std.TransCmp.lt_of_lt_of_eq hqm heq
            rw [hmp] at hgt
            cases hgt
          · rw [hget] at hq
            rw [Option.some.inj hq, heq] at hgt
            cases hgt
      · -- the path in the middle is not too great, and those before it are less
        rename_i hle
        rw [ih (size - size / 2) (by omega) (base + size / 2) (by omega) (by omega)]
        constructor
        · rintro ⟨i, hfrom, hlt, hi⟩
          exact ⟨i, by omega, by omega, hi⟩
        · rintro ⟨i, hfrom, hlt, q, hq, heq⟩
          refine ⟨i, Nat.le_of_not_lt fun hbefore => hle ?_, by omega, q, hq, heq⟩
          have hqm := compare_lt_of_index h hq hget hbefore
          have hpm : compare p ps[base + size / 2] = .lt :=
            Std.TransCmp.lt_of_eq_of_lt (Std.OrientedCmp.eq_symm heq) hqm
          exact Std.OrientedCmp.gt_of_lt hpm
    · obtain rfl : size = 1 := by omega
      have hget := List.getElem?_eq_getElem (show base < ps.length by omega)
      rw [if_neg hone, hget]
      simp only [beq_iff_eq]
      constructor
      · exact fun heq => ⟨base, Nat.le_refl base, by omega, _, hget, heq⟩
      · rintro ⟨i, hle, hlt, q, hq, heq⟩
        obtain rfl : i = base := by omega
        rw [hget] at hq
        rw [Option.some.inj hq, heq]

/-- Looking a path up by halving finds it exactly when it is there. -/
theorem search_eq_any {ps : List Path} (h : ps.Pairwise fun p q => compare p q = .lt) (p : Path) :
    search ps p = ps.any (same p) := by
  rw [Bool.eq_iff_iff, search]
  cases hps : ps with
  | nil => simp [searchFrom]
  | cons first rest =>
    rw [← hps, searchFrom_iff h p 0 ps.length (by simp [hps]) (by omega), List.any_eq_true]
    constructor
    · rintro ⟨i, -, -, q, hq, heq⟩
      exact ⟨q, List.mem_of_getElem? hq, compare_eq_iff_same.1 (Std.OrientedCmp.eq_symm heq)⟩
    · rintro ⟨q, hmem, hsame⟩
      obtain ⟨i, hi, hq⟩ := List.mem_iff_getElem.1 hmem
      exact ⟨i, Nat.zero_le i, by omega, q, by rw [List.getElem?_eq_getElem hi, hq],
        Std.OrientedCmp.eq_symm (compare_eq_iff_same.2 hsame)⟩

/-- Markup may hold both languages. -/
theorem languages_of_isMarkup {p : Path} (h : p.isMarkup = true) : p.languages = Language.all := by
  unfold isMarkup at h
  unfold languages
  cases hkind : p.kind with
  | none =>
    rw [hkind] at h
    cases h
  | some e =>
    rw [hkind] at h
    simp only at h ⊢
    have hcases : e = "html" ∨ e = "htm" := by simpa using h
    rcases hcases with rfl | rfl
    · rfl
    · rfl

/-- A file that may hold both languages is markup. -/
theorem isMarkup_of_languages {p : Path} (hstyle : Language.style ∈ p.languages)
    (hscript : Language.script ∈ p.languages) : p.isMarkup = true := by
  unfold languages at hstyle hscript
  unfold isMarkup
  cases hkind : p.kind with
  | none =>
    rw [hkind] at hstyle
    cases hstyle
  | some e =>
    rw [hkind] at hstyle hscript
    simp only at hstyle hscript ⊢
    split at hscript
    · cases List.mem_singleton.1 hscript
    split at hscript
    · rename_i hcss hjs
      rw [if_neg hcss, if_pos hjs] at hstyle
      cases List.mem_singleton.1 hstyle
    split at hscript
    · assumption
    · cases hscript

end Path

/-! ## The files of a plan -/

namespace Plan

theorem mem_pathsFor {language : Language} {paths : List Path} {p : Path}
    (h : p ∈ pathsFor language paths) : p ∈ paths ∧ language ∈ p.languages := by
  obtain ⟨hmem, hlanguage⟩ := List.mem_filter.1 (Path.mem_of_mem_sortUnique h)
  exact ⟨hmem, by simpa using hlanguage⟩

theorem paths_ofPaths (preset : Preset) (fix : Bool) (paths : List Path) (language : Language) :
    (ofPaths preset fix paths).paths language = pathsFor language paths := by
  cases language with
  | style => rfl
  | script => rfl

/-- The files a checker reads are in order, each once. -/
theorem pairwise_paths (preset : Preset) (fix : Bool) (paths : List Path) (language : Language) :
    ((ofPaths preset fix paths).paths language).Pairwise fun p q => Path.compare p q = .lt := by
  rw [paths_ofPaths]
  exact Path.pairwise_sortUnique _

/-- Of files that are in order a checker reads those it is for. -/
theorem paths_of_pairwise {preset : Preset} {fix : Bool} {paths : List Path} {language : Language}
    (h : paths.Pairwise fun p q => Path.compare p q = .lt) :
    (ofPaths preset fix paths).paths language =
      paths.filter fun p => p.languages.contains language := by
  rw [paths_ofPaths, pathsFor, Path.sortUnique_eq_self (h.filter _)]

theorem nodup_paths (preset : Preset) (fix : Bool) (paths : List Path) (language : Language) :
    ((ofPaths preset fix paths).paths language).Nodup := by
  refine (pairwise_paths preset fix paths language).imp fun {p q} hlt heq => ?_
  rw [heq, @Std.ReflCmp.compare_self _ Path.compare _ q] at hlt
  cases hlt

variable {preset : Preset} {fix : Bool} {paths : List Path}

/-- Whether a file is shared is found by comparing the files of the checkers with
each other. -/
theorem hasSharedPaths_eq_true :
    (ofPaths preset fix paths).hasSharedPaths = true ↔
      ∃ p ∈ pathsFor .style paths, ∃ q ∈ pathsFor .script paths, p.same q = true := by
  have hsearch : ∀ p, Path.search (pathsFor .script paths) p = _ :=
    Path.search_eq_any (Path.pairwise_sortUnique _)
  have hshared : (ofPaths preset fix paths).hasSharedPaths =
      (pathsFor .style paths).any (Path.search (pathsFor .script paths)) := rfl
  rw [hshared, List.any_eq_true]
  simp only [hsearch, List.any_eq_true]

theorem exists_mem_pathsFor {language : Language} {p : Path} (hp : p ∈ paths)
    (hlanguage : language ∈ p.languages) : ∃ q ∈ pathsFor language paths, p.same q = true :=
  Path.exists_mem_sortUnique (List.mem_filter.2 ⟨hp, by simpa using hlanguage⟩)

/-- **The checkers share a file exactly when some given file is markup.** -/
theorem hasSharedPaths_iff :
    (ofPaths preset fix paths).hasSharedPaths = true ↔ ∃ p ∈ paths, p.isMarkup = true := by
  rw [hasSharedPaths_eq_true]
  constructor
  · rintro ⟨p, hp, q, hq, hsame⟩
    obtain ⟨hmem, hstyle⟩ := mem_pathsFor hp
    obtain ⟨-, hscript⟩ := mem_pathsFor hq
    rw [← Path.languages_of_same hsame] at hscript
    exact ⟨p, hmem, Path.isMarkup_of_languages hstyle hscript⟩
  · rintro ⟨p, hp, hmarkup⟩
    have hall := Path.languages_of_isMarkup hmarkup
    have hstyle : .style ∈ p.languages := by rw [hall]; decide
    have hscript : .script ∈ p.languages := by rw [hall]; decide
    obtain ⟨q, hq, hpq⟩ := exists_mem_pathsFor hp hstyle
    obtain ⟨r, hr, hpr⟩ := exists_mem_pathsFor hp hscript
    exact ⟨q, hq, r, hr, Path.same_trans (Path.same_comm hpq) hpr⟩

/-- A path stands among the files of a checker when it is the same as a given path that may hold
the language. -/
theorem exists_same_pathsFor {language : Language} {p : Path} :
    (∃ q ∈ pathsFor language paths, p.same q = true) ↔
      ∃ q ∈ paths, p.same q = true ∧ language ∈ q.languages := by
  constructor
  · rintro ⟨q, hq, hsame⟩
    obtain ⟨hmem, hlanguage⟩ := mem_pathsFor hq
    exact ⟨q, hmem, hsame, hlanguage⟩
  · rintro ⟨q, hq, hsame, hlanguage⟩
    obtain ⟨r, hr, hqr⟩ := exists_mem_pathsFor hq hlanguage
    exact ⟨r, hr, Path.same_trans hsame hqr⟩

/-- **Files are shared out by their extensions.**  However the given files are ordered, repeated
and spelled, each checker gets its files in the order of their paths, each once: those that are
the same as a given file with an extension of its language, or of markup.  Looking the files of
the one checker up among those of the other finds out whether they share one. -/
theorem shares_out (preset : Preset) (fix : Bool) (paths : List Path) :
    let plan := ofPaths preset fix paths
    (∀ language, (plan.paths language).Pairwise fun p q => Path.compare p q = .lt) ∧
      (∀ (language : Language) (p : Path), (∃ q ∈ plan.paths language, p.same q = true) ↔
        ∃ q ∈ paths, p.same q = true ∧
          ∃ e ∈ language.extensions ++ Path.markupExtensions, q.HasExtension e) ∧
      (plan.hasSharedPaths = true ↔
        ∃ p ∈ plan.stylePaths, ∃ q ∈ plan.scriptPaths, p.same q = true) := by
  intro plan
  refine ⟨pairwise_paths preset fix paths, fun language p => ?_, hasSharedPaths_eq_true⟩
  simp only [← Path.mem_languages_iff]
  rw [paths_ofPaths]
  exact exists_same_pathsFor

end Plan
end WebLint
