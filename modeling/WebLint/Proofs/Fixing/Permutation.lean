import WebLint.Proofs.Fixing.Selection

/-!
# Fixes in any order

Fixes are sorted before they are applied, but the order they are sorted by does not tell
apart two fixes of the same range.  Whether a fix is skipped depends on the ranges only, and
so never on the order the fixes are given in.  The new text does depend on it when two fixes
replace the same range by different contents, and only then.

What is proved here:

* `skipped_splice_congr` — whether some fix is skipped depends on the ranges of the fixes;
* `span_sort_congr` — the ranges of sorted fixes do not depend on the order they are given in;
* `sort_congr` — nor do the fixes themselves, when those of the same range are equal;
* `apply_perm` — all this for the fixes of any diagnostics.
-/

namespace WebLint
namespace Fixing

variable {t : Text} {fs gs : List Fix}

/-! ## Ranges -/

/-- Whether some fix is skipped depends on the ranges of the fixes. -/
theorem skipped_splice_congr (h : fs.map Fix.span = gs.map Fix.span) (cursor : Nat) :
    (splice t cursor fs).skipped = (splice t cursor gs).skipped := by
  induction fs generalizing gs cursor with
  | nil =>
    rw [List.map_nil, eq_comm, List.map_eq_nil_iff] at h
    rw [h]
  | cons f fs ih =>
    cases gs with
    | nil => cases h
    | cons g gs =>
      obtain ⟨hfg, hrest⟩ := List.cons.inj h
      obtain ⟨hstart, hstop⟩ := Span.mk.inj hfg
      rw [splice, splice, hstart, hstop]
      split
      · rfl
      · exact ih hrest g.stop

/-- Fixes that come no later than each other have the same range. -/
theorem span_eq_of_le {f g : Fix} (hfg : le f g = true) (hgf : le g f = true) :
    f.span = g.span := by
  rw [le_iff] at hfg hgf
  rw [Fix.span, Fix.span, Span.mk.injEq]
  omega

/-- The ranges of sorted fixes do not depend on the order the fixes are given in. -/
theorem span_sort_congr (h : fs.Perm gs) : (sort fs).map Fix.span = (sort gs).map Fix.span := by
  have hsorted : ∀ fs : List Fix, ((sort fs).map Fix.span).Pairwise fun r s =>
      r.start < s.start ∨ r.start = s.start ∧ r.stop ≤ s.stop := fun fs =>
    List.pairwise_map.2 ((pairwise_sort fs).imp fun hfg => le_iff.1 hfg)
  have hperm : ((sort fs).map Fix.span).Perm ((sort gs).map Fix.span) :=
    ((perm_sort fs).trans (h.trans (perm_sort gs).symm)).map Fix.span
  refine List.Perm.eq_of_pairwise (fun r s _ _ hrs hsr => ?_) (hsorted fs) (hsorted gs) hperm
  cases r
  cases s
  simp only [Span.mk.injEq] at hrs hsr ⊢
  omega

/-- When fixes of the same range are equal, the order that sorted fixes are given in makes no
difference. -/
theorem sort_congr (h : fs.Perm gs)
    (hcontent : ∀ f ∈ fs, ∀ g ∈ fs, f.span = g.span → f.content = g.content) :
    sort fs = sort gs := by
  have hperm : (sort fs).Perm (sort gs) := (perm_sort fs).trans (h.trans (perm_sort gs).symm)
  refine List.Perm.eq_of_pairwise (fun f g hf hg hfg hgf => ?_) (pairwise_sort fs)
    (pairwise_sort gs) hperm
  have hspan := span_eq_of_le hfg hgf
  have hsame := hcontent f ((perm_sort fs).subset hf) g
    (h.symm.subset ((perm_sort gs).subset hg)) hspan
  obtain ⟨hstart, hstop⟩ := Span.mk.inj hspan
  cases f
  cases g
  simp_all

/-! ## Any fixes -/

theorem validFixes_perm (t : Text) {ds ds' : List Diagnostic} (h : ds.Perm ds') :
    (validFixes t ds).Perm (validFixes t ds') :=
  (h.filterMap _).filter _

/-- **Applying fixes does not depend on the order of the diagnostics they are taken from.**
Whether some fix is skipped never does, and the new text does not when any two fixes of the
same range, among those that are ranges of the text, have the same contents. -/
theorem apply_perm (t : Text) {ds ds' : List Diagnostic} (h : ds.Perm ds') :
    (apply (fixesOf ds) t).skipped = (apply (fixesOf ds') t).skipped ∧
      ((∀ f ∈ validFixes t ds, ∀ g ∈ validFixes t ds,
          f.start = g.start → f.stop = g.stop → f.content = g.content) →
        (apply (fixesOf ds) t).text = (apply (fixesOf ds') t).text) := by
  have hvalid := validFixes_perm t h
  rw [apply_eq_splice, apply_eq_splice]
  refine ⟨skipped_splice_congr (span_sort_congr hvalid) 0, fun hcontent => ?_⟩
  have hsame : sort (validFixes t ds) = sort (validFixes t ds') := by
    refine sort_congr hvalid fun f hf g hg hspan => ?_
    obtain ⟨hstart, hstop⟩ := Span.mk.inj hspan
    exact hcontent f hf g hg hstart hstop
  rw [hsame]

/-- A diagnostic with a fix. -/
def repairedBy (start stop : Nat) (content : String) : Diagnostic :=
  .ofViolation ⟨.indent, "", ⟨start, stop⟩, some ⟨start, stop, content.toList⟩⟩

/-- Three fixes, two of them the same, and a fix that is no range of the text. -/
def threeFixes : List Diagnostic :=
  [repairedBy 1 3 "x", repairedBy 0 2 "y", repairedBy 1 3 "x", repairedBy 2 9 "z"]

/-- The fixes from the last one to the first. -/
theorem apply_threeFixes :
    threeFixes.Perm threeFixes.reverse ∧
      (apply (fixesOf threeFixes) "abcd".toList).skipped =
        (apply (fixesOf threeFixes.reverse) "abcd".toList).skipped ∧
      (apply (fixesOf threeFixes) "abcd".toList).text =
        (apply (fixesOf threeFixes.reverse) "abcd".toList).text := by
  have hperm : threeFixes.Perm threeFixes.reverse := (List.reverse_perm _).symm
  obtain ⟨hskipped, htext⟩ := apply_perm "abcd".toList hperm
  exact ⟨hperm, hskipped, htext (by decide)⟩

end Fixing
end WebLint
