import WebLint.Diagnostic
import WebLint.Failure
import WebLint.Log

/-!
# Reports

Every checker is a *producer*: it yields findings, or it fails.  The findings
of all producers become records of one shape, and the report lists them by
file.  A producer that fails has no records at all; its failure is kept aside
and the records of the others stay as they are.
-/

namespace WebLint

/-- A finding, whichever producer it comes from. -/
structure Record where
  /-- The file, as a report names it. -/
  file : String
  /-- The row of the finding. -/
  line : Nat
  /-- The column of the finding. -/
  column : Nat
  /-- What is wrong. -/
  message : String
  /-- The name of the rule. -/
  rule : String
  /-- How serious it is. -/
  severity : Level
  /-- The producer. -/
  producer : String
  deriving DecidableEq, Repr, Inhabited

/-- The record of a diagnostic, with no producer yet.  Files below the working
directory are named relative to it. -/
def Diagnostic.toRecord (cwd : Option Path) (d : Diagnostic) : Record where
  file := d.file.relativize cwd
  line := d.location.row
  column := d.location.column
  message := d.message
  rule := d.rule.name
  severity := d.level
  producer := ""

/-- What one producer yields. -/
structure Batch where
  /-- The producer. -/
  producer : String
  /-- Its records, none when it failed. -/
  records : List Record
  /-- Why it failed, if it did. -/
  failure : Option Failure
  deriving DecidableEq, Repr, Inhabited

namespace Batch

/-- The batch of a producer: its findings as records of that producer, or its
failure. -/
def ofOutcome {α : Type} (producer : String) (outcome : Except Failure (List α))
    (toRecord : α → Record) : Batch :=
  match outcome with
  | .ok found => ⟨producer, found.map fun f => { toRecord f with producer }, none⟩
  | .error failure => ⟨producer, [], some failure⟩

/-- What is logged about the batch of a producer: that it failed, if it did and the
program goes on. -/
def outcomeEvents {α : Type} (producer : String) (outcome : Except Failure (List α)) :
    List Event :=
  match outcome with
  | .ok _ => []
  | .error failure =>
    if failure.isFatal then []
    else [⟨.debug, .reporting, "The " ++ producer ++ " checker failed: " ++ failure.message⟩]

/-- The batch of a producer, with what is logged about it. -/
def collect {α : Type} (producer : String) (outcome : Except Failure (List α))
    (toRecord : α → Record) : Logged Batch :=
  ⟨outcomeEvents producer outcome, ofOutcome producer outcome toRecord⟩

end Batch

/-- A producer that failed. -/
structure ProducerFailure where
  /-- The producer. -/
  producer : String
  /-- Why it failed. -/
  failure : Failure
  deriving DecidableEq, Repr, Inhabited

/-- What a run has to say. -/
structure Report where
  /-- The records of all producers, by file. -/
  records : List Record
  /-- The producers that failed, in order. -/
  failures : List ProducerFailure
  deriving DecidableEq, Repr, Inhabited

namespace Report

/-- Whether a record belongs no later than another: their files decide, and
nothing else. -/
def fileLe (a b : Record) : Bool := decide (a.file ≤ b.file)

/-- The report of some batches.  The records of one file stay in the order the
batches have them. -/
def ofBatches (batches : List Batch) : Report where
  records := (batches.flatMap (·.records)).mergeSort fileLe
  failures := batches.filterMap fun b => b.failure.map fun f => ⟨b.producer, f⟩

/-- Whether there is something to complain about.  Producers that failed do
not count. -/
def hasProblems (r : Report) : Bool := !r.records.isEmpty

/-- Whether the program has come to an end before there was a report. -/
def isCutShort (r : Report) : Bool := r.failures.any (·.failure.isFatal)

end Report

end WebLint
