import WebLint.Proofs.Report
import WebLint.Proofs.Text.Bytes
import WebLint.Report.Format

/-!
# Producers, one beside the other

A producer is anything that yields findings of its own shape, or fails, and
that knows how a finding becomes a record.  A report over any number of them
loses nothing, invents nothing and mixes nothing up: it is the records of the
producers that succeeded, put in order file by file, and the producers that
failed leave no other trace than their failures.

What is proved here:

* `records_perm`, `pairwise_bytes`, `filter_file` — the records are those of
  the producers, sorted by file, and those of one file stay in their order;
* `records_of_failing` — a producer that fails might as well not be there;
* `concise_ne_empty_iff` — a summary is written exactly when there are
  records;
* `ofBatches_producers` — all of it at once, for any list of producers.
-/

namespace WebLint

/-- A producer: what it is called, what it yielded, and the record of each of
its findings. -/
structure Producer where
  /-- The findings, in a shape of the producer's own. -/
  Finding : Type
  /-- The name it goes by in reports. -/
  name : String
  /-- What it yielded. -/
  outcome : Except Failure (List Finding)
  /-- The record of a finding. -/
  toRecord : Finding → Record

namespace Producer

/-- The batch of a producer. -/
def batch (p : Producer) : Batch := (Batch.collect p.name p.outcome p.toRecord).value

/-- The findings of a producer as records that carry its name, none when it
failed. -/
def records (p : Producer) : List Record :=
  match p.outcome with
  | .ok found => found.map fun f => { p.toRecord f with producer := p.name }
  | .error _ => []

/-- How a report tells that a producer failed, if it did. -/
def failure? (p : Producer) : Option ProducerFailure :=
  match p.outcome with
  | .ok _ => none
  | .error e => some ⟨p.name, e⟩

/-- The producer, had it succeeded without finding anything. -/
def silent (p : Producer) : Producer := { p with outcome := .ok [] }

@[simp] theorem records_batch (p : Producer) : p.batch.records = p.records := by
  obtain ⟨_, _, outcome, _⟩ := p
  cases outcome <;> rfl

@[simp] theorem failure_batch (p : Producer) :
    (p.batch.failure.map fun e => (⟨p.batch.producer, e⟩ : ProducerFailure)) = p.failure? := by
  obtain ⟨_, _, outcome, _⟩ := p
  cases outcome <;> rfl

@[simp] theorem records_silent (p : Producer) : p.silent.records = [] := rfl

theorem records_of_error {p : Producer} {e : Failure} (h : p.outcome = .error e) :
    p.records = [] := by
  rw [records, h]

theorem producer_of_mem_records {p : Producer} {r : Record} (h : r ∈ p.records) :
    r.producer = p.name := by
  rw [records] at h
  split at h
  · obtain ⟨f, -, rfl⟩ := List.mem_map.1 h
    rfl
  · simp at h

theorem records_ne_nil_iff {p : Producer} :
    p.records ≠ [] ↔ ∃ found, p.outcome = .ok found ∧ found ≠ [] := by
  rw [records]
  cases p.outcome <;> simp

end Producer

namespace Report

variable (ps : List Producer)

/-! ## The records -/

theorem flatMap_records_batch :
    (ps.map Producer.batch).flatMap (·.records) = ps.flatMap Producer.records := by
  rw [List.flatMap_map]
  exact List.flatMap_congr fun p _ => p.records_batch

/-- A report has the records of its producers, and no others. -/
theorem records_perm :
    (ofBatches (ps.map Producer.batch)).records.Perm (ps.flatMap Producer.records) := by
  rw [← flatMap_records_batch]
  exact List.mergeSort_perm _ _

/-- The records of a report are sorted by the bytes of their file names. -/
theorem pairwise_bytes (batches : List Batch) :
    (ofBatches batches).records.Pairwise fun a b => Text.bytes a.file ≤ Text.bytes b.file := by
  have hsorted : ((batches.flatMap (·.records)).mergeSort fileLe).Pairwise
      fun a b => fileLe a b = true :=
    @List.pairwise_mergeSort _ fileLe (fun _ _ _ => fileLe_trans) fileLe_total _
  refine hsorted.imp fun hle => ?_
  rw [fileLe, decide_eq_true_eq] at hle
  exact Text.bytes_le_iff.2 hle

/-- The records of one file stay in the order of the producers. -/
theorem filter_file (file : String) :
    (ofBatches (ps.map Producer.batch)).records.filter (·.file == file) =
      (ps.flatMap Producer.records).filter (·.file == file) := by
  rw [filter_records, flatMap_records_batch]

/-! ## The failures -/

theorem failures_eq_filterMap :
    (ofBatches (ps.map Producer.batch)).failures = ps.filterMap Producer.failure? := by
  simp only [ofBatches, List.filterMap_map, Function.comp_def, Producer.failure_batch]

variable {ps} in
/-- Lists of producers with the same records make reports with the same
records. -/
theorem records_congr {qs : List Producer}
    (h : ps.flatMap Producer.records = qs.flatMap Producer.records) :
    (ofBatches (ps.map Producer.batch)).records = (ofBatches (qs.map Producer.batch)).records := by
  simp only [ofBatches, flatMap_records_batch, h]

/-- A producer that fails might as well have found nothing, or not be there. -/
theorem records_of_failing {before after : List Producer} {p : Producer} {e : Failure}
    (h : p.outcome = .error e) :
    (ofBatches ((before ++ p.silent :: after).map Producer.batch)).records =
        (ofBatches ((before ++ p :: after).map Producer.batch)).records ∧
      (ofBatches ((before ++ after).map Producer.batch)).records =
        (ofBatches ((before ++ p :: after).map Producer.batch)).records := by
  constructor
  · apply records_congr
    simp [Producer.records_of_error h]
  · apply records_congr
    simp [Producer.records_of_error h]

/-! ## Problems -/

/-- There is something to complain about when a producer succeeded with a
finding. -/
theorem hasProblems_iff :
    (ofBatches (ps.map Producer.batch)).hasProblems = true ↔
      ∃ p ∈ ps, ∃ found, p.outcome = .ok found ∧ found ≠ [] := by
  have hempty : (ofBatches (ps.map Producer.batch)).records = [] ↔
      ∀ p ∈ ps, p.records = [] := by
    rw [← List.flatMap_eq_nil_iff]
    exact ⟨fun h => List.perm_nil.1 (h ▸ (records_perm ps).symm),
      fun h => List.perm_nil.1 (h ▸ records_perm ps)⟩
  rw [hasProblems, Bool.not_eq_true', List.isEmpty_eq_false_iff, Ne, hempty]
  simp only [← Producer.records_ne_nil_iff, not_forall, exists_prop, ne_eq]

/-- A summary is written when there is something to complain about. -/
theorem concise_ne_empty_iff (r : Report) : r.concise ≠ "" ↔ r.hasProblems = true := by
  rw [hasProblems, concise]
  cases hrecords : r.records with
  | nil => simp
  | cons first rest =>
    refine iff_of_true (fun hnone => ?_) rfl
    -- the summary line has a text of its own in it
    have hlength := congrArg String.length hnone
    have hfound : " found\n".length = 7 := rfl
    have hempty : "".length = 0 := rfl
    simp only [List.isEmpty_cons, Bool.false_eq_true, if_false, String.length_append] at hlength
    omega

/-! ## Any list of producers -/

/-- **Any number of producers share a report without disturbing one another.**
The report has the records of those that succeeded, sorted by file, and those
of one file in the order of the producers; each of them carries the name of
the producer it comes from.  The producers that failed are listed in order,
and the records are the same as if they had found nothing or were not there.
There is something to complain about exactly when a producer succeeded with a
finding, and exactly then a summary is written. -/
theorem ofBatches_producers :
    let report := ofBatches (ps.map Producer.batch)
    (report.records.Perm (ps.flatMap Producer.records) ∧
        report.records.Pairwise (fun a b => Text.bytes a.file ≤ Text.bytes b.file) ∧
        ∀ file, report.records.filter (·.file == file) =
          (ps.flatMap Producer.records).filter (·.file == file)) ∧
      (∀ p ∈ ps, ∀ r ∈ p.batch.records, r.producer = p.name) ∧
      report.failures = ps.filterMap Producer.failure? ∧
      (∀ before p after e, ps = before ++ p :: after → p.outcome = .error e →
        (ofBatches ((before ++ p.silent :: after).map Producer.batch)).records = report.records ∧
          (ofBatches ((before ++ after).map Producer.batch)).records = report.records) ∧
      (report.hasProblems = true ↔ ∃ p ∈ ps, ∃ found, p.outcome = .ok found ∧ found ≠ []) ∧
      (report.hasProblems = true ↔ report.concise ≠ "") := by
  intro report
  refine ⟨⟨records_perm ps, pairwise_bytes _, filter_file ps⟩, ?_, failures_eq_filterMap ps, ?_,
    hasProblems_iff ps, (concise_ne_empty_iff report).symm⟩
  · intro p _ r hr
    rw [Producer.records_batch] at hr
    exact Producer.producer_of_mem_records hr
  · rintro before p after e rfl hfails
    exact records_of_failing hfails

end Report
end WebLint
