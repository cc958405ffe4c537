import WebLint.Proofs.Fixing.Regions
import WebLint.Proofs.Sorting

/-!
# Which fixes are applied

Fixes are gone through in order, and each is applied unless it starts inside
the one applied last.  This file says what comes out for any fixes at all,
whatever their ranges: which of them are applied, what the new text is, and why
the others are left out.

What is proved here:

* `sort_filter` — leaving out some fixes and sorting them can be done in either
  order;
* `pairwise_selected`, `overlaps_of_mem_skipped` — the fixes that are applied
  follow each other, and one that is skipped starts inside one of these;
* `trySplice_eq` — no fix is ever cut out of a text where it cannot be;
* `splice_eq_refill` — the new text is the old one with other contents in the
  ranges of the applied fixes;
* `apply_of_apart` — of fixes that do not overlap none is skipped;
* `apply_eq_refill_selected` — all this for the fixes of any diagnostics.
-/

namespace WebLint

/-- The bytes a fix replaces. -/
def Fix.span (f : Fix) : Span := ⟨f.start, f.stop⟩

/-- What a fix does: the bytes it replaces, and what stands there instead. -/
def Fix.filling (f : Fix) : Span × Text := (f.span, f.content)

/-- Whether two fixes replace no common byte: one of them ends where the other
starts, or before. -/
def Fix.Apart (f g : Fix) : Prop := f.stop ≤ g.start ∨ g.stop ≤ f.start

theorem Fix.Apart.symm {f g : Fix} (h : f.Apart g) : g.Apart f := Or.symm h

namespace Fixing

/-! ## The order of fixes -/

theorem le_iff {f g : Fix} :
    le f g = true ↔ f.start < g.start ∨ f.start = g.start ∧ f.stop ≤ g.stop := by
  unfold le
  rcases Nat.lt_trichotomy f.start g.start with h | h | h
  · simp [Nat.compare_eq_lt.2 h, h, Ordering.then]
  · rw [h, Nat.compare_eq_eq.2 rfl]
    simp [Ordering.then, Nat.isLE_compare]
  · simp only [Nat.compare_eq_gt.2 h, Ordering.then]
    simp only [Ordering.isLE, Bool.false_eq_true, false_iff]
    omega

theorem le_trans (f g h : Fix) (hfg : le f g = true) (hgh : le g h = true) : le f h = true := by
  rw [le_iff] at *
  omega

theorem le_total (f g : Fix) : (le f g || le g f) = true := by
  rw [Bool.or_eq_true, le_iff, le_iff]
  omega

theorem pairwise_sort (fs : List Fix) : (sort fs).Pairwise fun f g => le f g = true :=
  List.pairwise_mergeSort le_trans le_total fs

theorem sort_eq_self {fs : List Fix} (h : fs.Pairwise fun f g => le f g = true) : sort fs = fs :=
  List.mergeSort_of_pairwise h

theorem perm_sort (fs : List Fix) : (sort fs).Perm fs := List.mergeSort_perm fs le

/-- Leaving out some fixes and sorting the others can be done in either
order. -/
theorem sort_filter (p : Fix → Bool) (fs : List Fix) :
    sort (fs.filter p) = (sort fs).filter p :=
  Sorting.mergeSort_filter le_trans le_total p fs

/-! ## The selection -/

/-- The fixes that are applied from the offset `cursor` on. -/
def selected (cursor : Nat) : List Fix → List Fix
  | [] => []
  | f :: fs => if f.start < cursor then selected cursor fs else f :: selected f.stop fs

/-- The fixes that are skipped from the offset `cursor` on. -/
def skipped (cursor : Nat) : List Fix → List Fix
  | [] => []
  | f :: fs => if f.start < cursor then f :: skipped cursor fs else skipped f.stop fs

section Selection

variable {t : Text} {cursor : Nat} {fs : List Fix}

theorem selected_sublist : (selected cursor fs).Sublist fs := by
  induction fs generalizing cursor with
  | nil => exact .slnil
  | cons f fs ih =>
    rw [selected]
    split
    · exact ih.cons f
    · exact ih.cons_cons f

/-- Each fix is either applied or skipped. -/
theorem perm_selected_append_skipped :
    (selected cursor fs ++ skipped cursor fs).Perm fs := by
  induction fs generalizing cursor with
  | nil => exact .nil
  | cons f fs ih =>
    rw [selected, skipped]
    split
    · exact List.perm_middle.trans (ih.cons f)
    · exact ih.cons f

/-- From the start of a text on, the first fix is applied. -/
theorem selected_zero_eq_nil_iff : selected 0 fs = [] ↔ fs = [] := by
  cases fs with
  | nil => simp [selected]
  | cons f fs => simp [selected]

/-- The fixes that are applied start behind the cursor. -/
theorem cursor_le_start (hfs : ∀ f ∈ fs, f.start ≤ f.stop) :
    ∀ f ∈ selected cursor fs, cursor ≤ f.start := by
  induction fs generalizing cursor with
  | nil => exact fun f hf => absurd hf List.not_mem_nil
  | cons f fs ih =>
    obtain ⟨hf, hrest⟩ := List.forall_mem_cons.1 hfs
    rw [selected]
    split
    · exact ih hrest
    · rename_i hcursor
      intro g hg
      rcases List.mem_cons.1 hg with rfl | hg
      · exact Nat.le_of_not_lt hcursor
      · have hle : f.stop ≤ g.start := ih hrest g hg
        omega

/-- The fixes that are applied follow each other. -/
theorem pairwise_selected (hfs : ∀ f ∈ fs, f.start ≤ f.stop) :
    (selected cursor fs).Pairwise fun f g => f.stop ≤ g.start := by
  induction fs generalizing cursor with
  | nil => exact .nil
  | cons f fs ih =>
    obtain ⟨-, hrest⟩ := List.forall_mem_cons.1 hfs
    rw [selected]
    split
    · exact ih hrest
    · exact List.pairwise_cons.2 ⟨cursor_le_start hrest, ih hrest⟩

/-- A fix that is skipped starts in front of the cursor, or inside a fix that is
applied. -/
theorem overlaps_of_mem_skipped (hsorted : fs.Pairwise fun f g => f.start ≤ g.start) :
    ∀ f ∈ skipped cursor fs,
      f.start < cursor ∨ ∃ g ∈ selected cursor fs, g.start ≤ f.start ∧ f.start < g.stop := by
  induction fs generalizing cursor with
  | nil => exact fun f hf => absurd hf List.not_mem_nil
  | cons g fs ih =>
    obtain ⟨hg, hrest⟩ := List.pairwise_cons.1 hsorted
    rw [skipped, selected]
    split
    · rename_i hcursor
      intro f hf
      rcases List.mem_cons.1 hf with rfl | hf
      · exact Or.inl hcursor
      · exact ih hrest f hf
    · intro f hf
      refine Or.inr ?_
      rcases ih hrest f hf with hstop | ⟨k, hk, hfk⟩
      · have hmem : f ∈ fs := perm_selected_append_skipped.subset (List.mem_append_right _ hf)
        exact ⟨g, List.mem_cons_self, hg f hmem, hstop⟩
      · exact ⟨k, List.mem_cons_of_mem g hk, hfk⟩

/-! ## Cutting -/

/-- The bytes `start..stop` of a text, when these are a range of it. -/
def trySlice (t : Text) (start stop : Nat) : Option Text :=
  if start ≤ stop ∧ t.isBoundary start = true ∧ t.isBoundary stop = true then
    some (t.slice start stop)
  else none

/-- Apply fixes in order, as long as every piece of the text that is copied is a
range of it. -/
def trySplice (t : Text) (cursor : Nat) : List Fix → Option Result
  | [] => (trySlice t cursor t.byteLength).map fun rest => ⟨false, rest⟩
  | f :: fs =>
    if f.start < cursor then (trySplice t cursor fs).map fun rest => ⟨true, rest.text⟩
    else
      (trySlice t cursor f.start).bind fun piece =>
        (trySplice t f.stop fs).map fun rest => ⟨rest.skipped, piece ++ f.content ++ rest.text⟩

/-- Apply fixes to a text, as long as every piece of it that is copied is a range
of it. -/
def tryApply (fixes : List Fix) (t : Text) : Option Result :=
  trySplice t 0 ((sort fixes).filter (isValid t))

/-- Fixes whose ranges are ranges of a text can always be applied. -/
theorem trySplice_eq (hcursor : t.isBoundary cursor = true)
    (hvalid : ∀ f ∈ fs, isValid t f = true) :
    trySplice t cursor fs = some (splice t cursor fs) := by
  induction fs generalizing cursor with
  | nil =>
    have hwhole : t.isBoundary t.byteLength = true := by
      simpa using Text.isBoundary_byteLength_append t []
    have hle := Text.le_byteLength_of_isBoundary hcursor
    have hrest : t.slice cursor t.byteLength = t.dropBytes cursor := by
      have h := Text.between_append_dropBytes t hle
      rwa [← Text.slice_eq_between t hcursor hle,
        show t.dropBytes t.byteLength = [] by simpa using Text.dropBytes_append t [],
        List.append_nil] at h
    rw [trySplice, splice, trySlice, if_pos ⟨hle, hcursor, hwhole⟩, hrest]
    rfl
  | cons f fs ih =>
    obtain ⟨hf, hrest⟩ := List.forall_mem_cons.1 hvalid
    obtain ⟨-, hstart, hstop⟩ := isValid_iff.1 hf
    rw [trySplice, splice]
    split
    · rw [ih hcursor hrest]
      rfl
    · rename_i hle
      rw [trySlice, if_pos ⟨Nat.le_of_not_lt hle, hcursor, hstart⟩, ih hstop hrest]
      rfl

/-- The new text is the old one with other contents in the ranges of the applied
fixes, and says whether there are fixes that are not. -/
theorem splice_eq_refill (hcursor : t.isBoundary cursor = true)
    (hvalid : ∀ f ∈ fs, isValid t f = true) :
    splice t cursor fs =
      ⟨!(skipped cursor fs).isEmpty, refill t cursor ((selected cursor fs).map Fix.filling)⟩ := by
  induction fs generalizing cursor with
  | nil => rfl
  | cons f fs ih =>
    obtain ⟨hf, hrest⟩ := List.forall_mem_cons.1 hvalid
    obtain ⟨-, -, hstop⟩ := isValid_iff.1 hf
    rw [splice, selected, skipped]
    split
    · rw [ih hcursor hrest]
      rfl
    · rename_i hle
      rw [ih hstop hrest, Text.slice_eq_between t hcursor (Nat.le_of_not_lt hle)]
      rfl

end Selection

/-! ## Fixes that are apart -/

section Apart

variable {t : Text} {fs : List Fix}

/-- Fixes that follow each other are all applied. -/
theorem selected_eq_self {cursor : Nat} (hcursor : ∀ f ∈ fs, cursor ≤ f.start)
    (h : fs.Pairwise fun f g => f.stop ≤ g.start) :
    selected cursor fs = fs ∧ skipped cursor fs = [] := by
  induction fs generalizing cursor with
  | nil => exact ⟨rfl, rfl⟩
  | cons f fs ih =>
    obtain ⟨hf, hrest⟩ := List.pairwise_cons.1 h
    obtain ⟨hselected, hskipped⟩ := ih hf hrest
    have hstart : ¬ f.start < cursor := Nat.not_lt.2 (hcursor f List.mem_cons_self)
    rw [selected, skipped, if_neg hstart, if_neg hstart, hselected, hskipped]
    exact ⟨rfl, rfl⟩

/-- In order, fixes that are apart follow each other. -/
theorem pairwise_sort_of_apart (hfs : ∀ f ∈ fs, f.start ≤ f.stop) (h : fs.Pairwise Fix.Apart) :
    (sort fs).Pairwise fun f g => f.stop ≤ g.start := by
  have happart : (sort fs).Pairwise Fix.Apart := h.perm (perm_sort fs).symm Fix.Apart.symm
  refine ((pairwise_sort fs).and happart).imp_of_mem fun {f g} hf hg hfg => ?_
  have hforder := hfs f ((perm_sort fs).subset hf)
  have hgorder := hfs g ((perm_sort fs).subset hg)
  obtain ⟨hle, hfg⟩ := hfg
  rw [le_iff] at hle
  rw [Fix.Apart] at hfg
  omega

/-- Of fixes that are apart none is skipped. -/
theorem apply_of_apart (hvalid : ∀ f ∈ fs, isValid t f = true) (h : fs.Pairwise Fix.Apart) :
    apply fs t = ⟨false, refill t 0 ((sort fs).map Fix.filling)⟩ := by
  have hsorted : ∀ f ∈ sort fs, isValid t f = true := fun f hf =>
    hvalid f ((perm_sort fs).subset hf)
  obtain ⟨hselected, hskipped⟩ := selected_eq_self (fun f _ => Nat.zero_le f.start)
    (pairwise_sort_of_apart (fun f hf => (isValid_iff.1 (hvalid f hf)).1) h)
  rw [apply, List.filter_eq_self.2 hsorted, splice_eq_refill (Text.isBoundary_zero t) hsorted,
    hselected, hskipped]
  rfl

end Apart

/-! ## Any fixes -/

/-- The fixes of some diagnostics that are ranges of a text, in order. -/
abbrev validFixes (t : Text) (ds : List Diagnostic) : List Fix :=
  (fixesOf ds).filter (isValid t)

theorem apply_eq_splice (fixes : List Fix) (t : Text) :
    apply fixes t = splice t 0 (sort (fixes.filter (isValid t))) := by
  rw [apply, sort_filter]

/-- Spans that follow each other are in order. -/
theorem inOrder_of_pairwise {fs : List Fix} {first : Nat} (hfirst : ∀ f ∈ fs, first ≤ f.start)
    (hfs : ∀ f ∈ fs, f.start ≤ f.stop) (h : fs.Pairwise fun f g => f.stop ≤ g.start) :
    Region.inOrder first (fs.map Fix.span) = true :=
  Region.inOrder_of_follow (List.forall_mem_map.2 hfirst) (List.forall_mem_map.2 hfs)
    (List.pairwise_map.2 h)

/-- **What applying any fixes does.**  It never fails.  Of the fixes that are
ranges of the text some are applied and the others skipped.  Those applied are
in order and follow each other, and the new text is the old one with their
contents in their ranges.  One that is skipped starts inside one that is
applied; the flag says whether there are any, and the first is never skipped.
Fixes that are no ranges of the text have no effect. -/
theorem apply_eq_refill_selected (t : Text) (ds : List Diagnostic) :
    tryApply (fixesOf ds) t = some (apply (fixesOf ds) t) ∧
    apply (fixesOf ds) t = apply (validFixes t ds) t ∧
    ∃ applied left : List Fix,
      (applied ++ left).Perm (validFixes t ds) ∧
      applied.Sublist (sort (validFixes t ds)) ∧
      applied.Pairwise (fun f g => le f g = true ∧ f.stop ≤ g.start) ∧
      refill t 0 (applied.map fun f => (f.span, t.at f.span)) = t ∧
      (apply (fixesOf ds) t).text = refill t 0 (applied.map fun f => (f.span, f.content)) ∧
      (∀ f ∈ left, ∃ g ∈ applied, g.start ≤ f.start ∧ f.start < g.stop) ∧
      ((apply (fixesOf ds) t).skipped = true ↔ left ≠ []) ∧
      (applied = [] ↔ ∀ f ∈ fixesOf ds, isValid t f = false) := by
  have hvalid : ∀ f ∈ sort (validFixes t ds), isValid t f = true := fun f hf =>
    (List.mem_filter.1 ((perm_sort _).subset hf)).2
  have hordered : ∀ f ∈ sort (validFixes t ds), f.start ≤ f.stop := fun f hf =>
    (isValid_iff.1 (hvalid f hf)).1
  have hsplice := splice_eq_refill (Text.isBoundary_zero t) hvalid
  have hsorted := pairwise_sort (validFixes t ds)
  have hfollow : (selected 0 (sort (validFixes t ds))).Pairwise fun f g => f.stop ≤ g.start :=
    pairwise_selected hordered
  refine ⟨?_, ?_, selected 0 (sort (validFixes t ds)), skipped 0 (sort (validFixes t ds)),
    perm_selected_append_skipped.trans (perm_sort _), selected_sublist,
    (hsorted.sublist selected_sublist).and hfollow, ?_, ?_, ?_, ?_, ?_⟩
  · rw [tryApply, ← sort_filter, trySplice_eq (Text.isBoundary_zero t) hvalid, apply_eq_splice]
  · rw [apply_eq_splice, apply_eq_splice, List.filter_filter]
    simp only [Bool.and_self]
  · -- the old contents of ranges that follow each other
    have hold : (selected 0 (sort (validFixes t ds))).map (fun f => (f.span, t.at f.span)) =
        ((selected 0 (sort (validFixes t ds))).map Fix.span).map
          fun s => (s, t.between s.start s.stop) := by
      rw [List.map_map]
      refine List.map_congr_left fun f hf => ?_
      obtain ⟨hle, hstart, -⟩ := isValid_iff.1 (hvalid f (selected_sublist.subset hf))
      simp only [Function.comp_apply, Text.at, Fix.span, Text.slice_eq_between t hstart hle]
    rw [hold, refill_between t (inOrder_of_pairwise (fun f _ => Nat.zero_le f.start)
      (fun f hf => hordered f (selected_sublist.subset hf)) hfollow), Text.dropBytes_zero]
  · rw [apply_eq_splice, hsplice]
    rfl
  · intro f hf
    have hstarts : (sort (validFixes t ds)).Pairwise fun f g => f.start ≤ g.start := by
      refine hsorted.imp fun {f g} h => ?_
      rw [le_iff] at h
      omega
    rcases overlaps_of_mem_skipped hstarts f hf with h | h
    · exact absurd h (Nat.not_lt_zero _)
    · exact h
  · rw [apply_eq_splice, hsplice]
    simp
  · rw [selected_zero_eq_nil_iff, ← List.length_eq_zero_iff, (perm_sort _).length_eq,
      List.length_eq_zero_iff, List.filter_eq_nil_iff]
    simp

end Fixing
end WebLint
