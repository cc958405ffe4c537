import WebLint.Language

/-!
# Extensions

Which checkers handle a file is told by its extension: what stands behind the last dot of its
name, in small or capital letters.  A dot in front of the whole name begins no extension.

What is proved here:

* `kind_eq_some_iff` — the kind of a file, told by how its name is spelled;
* `mem_languages_iff` — a file may hold a language when it has an extension of the language,
  or one of markup.
-/

namespace WebLint

/-- The extensions of the files that hold nothing but a language. -/
def Language.extensions : Language → List String
  | .style => ["css"]
  | .script => ["js", "mjs", "cjs"]

namespace Path

/-- The extensions of markup. -/
def markupExtensions : List String := ["html", "htm"]

/-- Whether the name of a file is a stem, a dot and an extension, the last one being spelled
`e` when its capitals are made small. -/
def HasExtension (p : Path) (e : String) : Prop :=
  ∃ stem suffix : List Char,
    p.components.getLast? = some (.name (String.ofList (stem ++ '.' :: suffix))) ∧
      stem ≠ [] ∧ '.' ∉ suffix ∧ suffix.map Char.toLower = e.toList

theorem fileName_eq_some_iff {p : Path} {text : String} :
    p.fileName = some text ↔ p.components.getLast? = some (.name text) := by
  unfold fileName
  split
  · rename_i heq
    simp [heq]
  · rename_i hname
    exact iff_of_false (fun h => by cases h) (hname text)

/-- An extension stands behind the last dot of a name. -/
theorem extension_eq_some_iff {p : Path} {suffix : List Char} :
    p.extension = some suffix ↔ ∃ stem,
      p.fileName = some (String.ofList (stem ++ '.' :: suffix)) ∧ stem ≠ [] ∧ '.' ∉ suffix := by
  rw [extension, Option.bind_eq_some_iff]
  constructor
  · rintro ⟨text, htext, h⟩
    simp only at h
    split at h
    · cases h
    rename_i hdotted
    obtain rfl := Option.some.inj h
    have hlength := congrArg List.length
      (List.takeWhile_append_dropWhile (p := (· != '.')) (l := text.toList.reverse))
    have hsplit := congrArg List.reverse
      (List.takeWhile_append_dropWhile (p := (· != '.')) (l := text.toList.reverse))
    have hdot := List.head?_dropWhile_not (· != '.') text.toList.reverse
    -- the dot itself, and one character in front of it at least
    obtain ⟨c, d, front, hrest⟩ : ∃ c d front,
        text.toList.reverse.dropWhile (· != '.') = c :: d :: front := by
      rw [List.length_append, List.length_reverse] at hlength
      rw [List.length_reverse] at hdotted
      match hrest : text.toList.reverse.dropWhile (· != '.') with
      | [] | [_] =>
        rw [hrest] at hlength
        simp only [List.length_nil, List.length_cons] at hlength
        omega
      | c :: d :: front => exact ⟨c, d, front, rfl⟩
    rw [hrest] at hsplit hdot
    obtain rfl : c = '.' := by simpa using hdot
    refine ⟨(d :: front).reverse, ?_, by simp, ?_⟩
    · rw [htext, Option.some.injEq, ← String.toList_inj, String.toList_ofList]
      simpa using hsplit.symm
    · intro hmem
      have hnot := List.all_eq_true.1 (List.all_takeWhile (p := (· != '.')))
        _ (List.mem_reverse.1 hmem)
      simp at hnot
  · rintro ⟨stem, htext, hstem, hsuffix⟩
    refine ⟨_, htext, ?_⟩
    have hreverse : ∀ c ∈ suffix.reverse, (c != '.') = true := by
      intro c hc
      rw [bne_iff_ne]
      rintro rfl
      exact hsuffix (List.mem_reverse.1 hc)
    have hbehind : ((stem ++ '.' :: suffix).reverse.takeWhile (· != '.')).reverse = suffix := by
      rw [List.reverse_append, List.reverse_cons, List.append_assoc,
        List.takeWhile_append_of_pos hreverse]
      simp
    have hpos := List.length_pos_iff.2 hstem
    simp only [String.toList_ofList, hbehind]
    rw [if_neg]
    simp only [List.length_append, List.length_cons]
    omega

/-- The kind of a file is its extension in small letters. -/
theorem kind_eq_some_iff {p : Path} {e : String} : p.kind = some e ↔ p.HasExtension e := by
  rw [kind, Option.map_eq_some_iff]
  constructor
  · rintro ⟨suffix, hsuffix, rfl⟩
    obtain ⟨stem, hname, hstem, hdot⟩ := extension_eq_some_iff.1 hsuffix
    exact ⟨stem, suffix, fileName_eq_some_iff.1 hname, hstem, hdot, (String.toList_ofList).symm⟩
  · rintro ⟨stem, suffix, hname, hstem, hdot, hspelled⟩
    refine ⟨suffix, extension_eq_some_iff.2 ⟨stem, fileName_eq_some_iff.2 hname, hstem, hdot⟩, ?_⟩
    rw [hspelled, String.ofList_toList]

/-- A file may hold a language when it has an extension of the language, or one of markup. -/
theorem mem_languages_iff {p : Path} {language : Language} :
    language ∈ p.languages ↔
      ∃ e ∈ language.extensions ++ markupExtensions, p.HasExtension e := by
  simp only [← kind_eq_some_iff]
  unfold languages
  cases p.kind with
  | none => simp
  | some e =>
    simp only [Option.some.injEq, exists_eq_right']
    by_cases hsheet : e = "css"
    · subst hsheet
      cases language <;> decide
    by_cases hscript : e ∈ ["js", "mjs", "cjs"]
    · simp only [List.mem_cons, List.not_mem_nil, or_false] at hscript
      rcases hscript with rfl | rfl | rfl <;> cases language <;> decide
    by_cases hmarkup : e ∈ markupExtensions
    · simp only [markupExtensions, List.mem_cons, List.not_mem_nil, or_false] at hmarkup
      rcases hmarkup with rfl | rfl <;> cases language <;> decide
    · have hnone : e ∉ language.extensions := by
        cases language with
        | style => simpa [Language.extensions] using hsheet
        | script => exact hscript
      simp only [markupExtensions] at hmarkup
      simp [hsheet, hscript, hmarkup, hnone, markupExtensions]

/-- Neither a slash behind a name nor its capitals matter. -/
example : (⟨"b/./x.HTML/"⟩ : Path).languages = Language.all := by decide

end Path
end WebLint
