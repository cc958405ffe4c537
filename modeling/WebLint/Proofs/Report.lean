import WebLint.Proofs.Sorting
import WebLint.Report

/-!
# The records of one file

A report sorts its records by file and leaves those of one file in the order
the batches have them.  So what a report says of one file can be read off the
batches.

What is proved here:

* `filter_records` — the records of a report about one file are those of its
  batches, in order;
* `pairwise_records` — what holds between the records of each file, in the order
  of the batches, holds between them in the report;
* `filter_records_of_eq` — reports that are equal, and equal in their other
  batches, are equal in their first one, file by file;
* `failures_eq_nil_iff` — a report has no failures when no batch has one.
-/

namespace WebLint
namespace Report

theorem fileLe_trans {a b c : Record} (h₁ : fileLe a b = true) (h₂ : fileLe b c = true) :
    fileLe a c = true := by
  simp only [fileLe, decide_eq_true_eq] at h₁ h₂ ⊢
  exact String.le_trans h₁ h₂

theorem fileLe_total (a b : Record) : (fileLe a b || fileLe b a) = true := by
  simp only [fileLe, Bool.or_eq_true, decide_eq_true_eq]
  exact String.le_total a.file b.file

/-- Sorting by file keeps the records of one file in their order. -/
theorem filter_mergeSort (rs : List Record) (file : String) :
    (rs.mergeSort fileLe).filter (·.file == file) = rs.filter (·.file == file) := by
  have hequal : (rs.filter (·.file == file)).Pairwise fun a b => fileLe a b = true := by
    refine List.pairwise_of_forall_mem_list fun a ha b hb => ?_
    have hafile : a.file = file := by simpa using (List.mem_filter.1 ha).2
    have hbfile : b.file = file := by simpa using (List.mem_filter.1 hb).2
    simp [fileLe, hafile, hbfile]
  rw [← @Sorting.mergeSort_filter _ fileLe (fun _ _ _ => fileLe_trans) fileLe_total]
  exact List.mergeSort_of_pairwise hequal

/-- The records of a report about one file are those of its batches. -/
theorem filter_records (batches : List Batch) (file : String) :
    (ofBatches batches).records.filter (·.file == file) =
      (batches.flatMap (·.records)).filter (·.file == file) :=
  filter_mergeSort _ file

/-- What holds between the records of each file, in the order of the batches,
holds between them in the report. -/
theorem pairwise_records {batches : List Batch} {R : Record → Record → Prop}
    (h : (batches.flatMap (·.records)).Pairwise fun a b => a.file = b.file → R a b) :
    (ofBatches batches).records.Pairwise fun a b => a.file = b.file → R a b := by
  refine List.pairwise_iff_forall_sublist.2 fun {a b} hpair hfile => ?_
  have hkept := hpair.filter (·.file == b.file)
  rw [filter_records, List.filter_cons_of_pos (by simp [hfile]),
    List.filter_cons_of_pos (by simp), List.filter_nil] at hkept
  exact List.pairwise_iff_forall_sublist.1 h (hkept.trans List.filter_sublist) hfile

/-- Reports that are equal up to their first batches say the same of a file in
these. -/
theorem filter_records_of_eq {a b rest : Batch} (h : ofBatches [a, rest] = ofBatches [b, rest])
    (file : String) : a.records.filter (·.file == file) = b.records.filter (·.file == file) := by
  have hfilter := congrArg (fun r => r.records.filter (·.file == file)) h
  simp only [filter_records, List.flatMap_cons, List.flatMap_nil, List.append_nil,
    List.filter_append] at hfilter
  exact List.append_cancel_right hfilter

/-- A report has no failures when no batch has one. -/
theorem failures_eq_nil_iff {batches : List Batch} :
    (ofBatches batches).failures = [] ↔ ∀ b ∈ batches, b.failure = none := by
  rw [ofBatches, List.filterMap_eq_nil_iff]
  exact forall₂_congr fun b _ => Option.map_eq_none_iff

end Report
end WebLint
