import Mathlib
import WebLint.Proofs.Json.Printer
import WebLint.Report.Format

/-!
# Reports as JSON

A report is handed to other programs as JSON.  These know nothing of the printer, only of the
grammar, and they read the fields of an object by name.  What they get is the report, whatever
characters stand in its names, messages and causes: all its records with all their fields, and
of each producer that failed why it did, as one line.

What is proved here:

* `Report.ofJson?_toJson` — what a report tells is read off its value, record by record and
  failure by failure;
* `Report.denotes_json` — the JSON of a report stands for its value;
* `Report.json_round_trip` — so the JSON is read as the report, and two reports with the same
  JSON tell the same.
-/

namespace WebLint

/-! ## Reading what a report tells -/

namespace Json

/-- The text a value is, as a string. -/
def string? (j : Json) : Option String := j.text?.map String.ofList

/-- Whether a value is an object with some fields and no others, in this order. -/
def hasFields (names : List String) : Json → Bool
  | .object fields => fields.map (·.1) == names.map String.toList
  | _ => false

@[simp]
theorem string?_ofString (s : String) : (ofString s).string? = some s := by
  simp [string?, ofString, text?]

@[simp]
theorem nat?_ofNat (n : Nat) : (ofNat n).nat? = some n := by
  rw [ofNat, nat?, natOf, ← Nat.repr_eq_ofList_toDigits, Nat.toNat?_repr]

/-- A field of an object is found by its name. -/
theorem field?_ofFields (fields : List (String × Json)) (name : String) :
    (ofFields fields).field? name = (fields.find? (·.1 == name)).map (·.2) := by
  have hname : ∀ s : String, (s.toList == name.toList) = (s == name) := by
    intro s
    rw [Bool.eq_iff_iff, beq_iff_eq, beq_iff_eq, String.toList_inj]
  simp [field?, ofFields, List.find?_map, Function.comp_def, hname]

/-- An object has the fields it is made of, and no others. -/
theorem hasFields_ofFields (fields : List (String × Json)) :
    (ofFields fields).hasFields (fields.map (·.1)) = true := by
  simp [hasFields, ofFields]

end Json

/-- The name of a level tells which one it is. -/
@[simp]
theorem Level.ofName_name (l : Level) : Level.ofName l.name = some l := by
  cases l <;> decide

/-- The record a value is.  It has the fields of a record, in order. -/
def Record.ofJson? (j : Json) : Option Record := do
  guard (j.hasFields ["file", "line", "column", "message", "rule", "severity", "producer"])
  return {
    file := ← (← j.field? "file").string?
    line := ← (← j.field? "line").nat?
    column := ← (← j.field? "column").nat?
    message := ← (← j.field? "message").string?
    rule := ← (← j.field? "rule").string?
    severity := ← Level.ofName (← (← j.field? "severity").string?)
    producer := ← (← j.field? "producer").string? }

/-- What a report tells. -/
structure Told where
  /-- The records, in order. -/
  records : List Record
  /-- The producers that failed, in order, each with its causes as one line. -/
  failures : List (String × String)
  deriving DecidableEq, Repr

/-- What a report tells: of a failure, its causes, the outermost first. -/
def Report.told (r : Report) : Told where
  records := r.records
  failures := r.failures.map fun f => (f.producer, ": ".intercalate f.failure.causes)

/-- The producer that failed, and why, as a value tells. -/
def Told.failureOfJson? (j : Json) : Option (String × String) := do
  guard (j.hasFields ["producer", "error"])
  return (← (← j.field? "producer").string?, ← (← j.field? "error").string?)

/-- What the report tells that a value is. -/
def Told.ofJson? (j : Json) : Option Told := do
  guard (j.hasFields ["diagnostics", "errors"])
  return {
    records := ← (← (← j.field? "diagnostics").array?).mapM Record.ofJson?
    failures := ← (← (← j.field? "errors").array?).mapM failureOfJson? }

/-- A record is read off its value. -/
theorem Record.ofJson?_toJson (r : Record) : Record.ofJson? r.toJson = some r := by
  have hfields : r.toJson.hasFields
      ["file", "line", "column", "message", "rule", "severity", "producer"] = true :=
    Json.hasFields_ofFields _
  rw [Record.ofJson?, hfields]
  simp [Record.toJson, Json.field?_ofFields]

theorem ProducerFailure.ofJson?_toJson (f : ProducerFailure) :
    Told.failureOfJson? f.toJson = some (f.producer, ": ".intercalate f.failure.causes) := by
  have hfields : f.toJson.hasFields ["producer", "error"] = true := Json.hasFields_ofFields _
  rw [Told.failureOfJson?, hfields]
  simp [ProducerFailure.toJson, Json.field?_ofFields, Failure.message]

/-- What is read off each value of a list. -/
theorem mapM_map_of_forall {α β γ : Type} {f : β → Option γ} {g : α → β} {h : α → γ}
    (hread : ∀ a, f (g a) = some (h a)) (xs : List α) : (xs.map g).mapM f = some (xs.map h) := by
  have hcomp : f ∘ g = fun a => some (h a) := funext hread
  rw [List.mapM_map, hcomp]
  exact List.mapM_pure

/-- What a report tells is read off its value. -/
theorem Report.ofJson?_toJson (r : Report) : Told.ofJson? r.toJson = some r.told := by
  have hfields : r.toJson.hasFields ["diagnostics", "errors"] = true := Json.hasFields_ofFields _
  have hrecords := mapM_map_of_forall Record.ofJson?_toJson r.records
  have hfailures := mapM_map_of_forall ProducerFailure.ofJson?_toJson r.failures
  rw [Told.ofJson?, hfields]
  simp [Report.toJson, Json.field?_ofFields, Json.array?, hrecords, hfailures, Report.told]

/-! ## Printing it -/

namespace Json

theorem Regular.ofNat (n : Nat) : Regular (ofNat n) := .number (numeral_toDigits n)

theorem Regular.ofString (s : String) : Regular (ofString s) := .string s.toList

theorem Regular.ofFields {fields : List (String × Json)} (h : ∀ f ∈ fields, Regular f.2) :
    Regular (ofFields fields) := by
  refine .object fun f hf => ?_
  obtain ⟨g, hg, rfl⟩ := List.mem_map.1 hf
  exact h g hg

theorem Regular.array_map {α : Type} {f : α → Json} (hf : ∀ a, Regular (f a)) (xs : List α) :
    Regular (.array (xs.map f)) := by
  refine .array fun j hj => ?_
  obtain ⟨a, -, rfl⟩ := List.mem_map.1 hj
  exact hf a

end Json

theorem Record.regular_toJson (r : Record) : r.toJson.Regular := by
  refine .ofFields ?_
  simp [Json.Regular.ofString, Json.Regular.ofNat]

theorem ProducerFailure.regular_toJson (f : ProducerFailure) : f.toJson.Regular := by
  refine .ofFields ?_
  simp [Json.Regular.ofString]

/-- The numbers of a report are spelled as numbers. -/
theorem Report.regular_toJson (r : Report) : r.toJson.Regular := by
  have hrecords := Json.Regular.array_map Record.regular_toJson r.records
  have hfailures := Json.Regular.array_map ProducerFailure.regular_toJson r.failures
  refine .ofFields ?_
  simp [hrecords, hfailures]

/-- The JSON of a report stands for its value. -/
theorem Report.denotes_json (r : Report) : Json.Denotes r.json.toList r.toJson := by
  have hgap : Json.Gap ['\n'] [] := ⟨['\n'], rfl, by simp [Json.isGap]⟩
  rw [Report.json, String.toList_ofList]
  exact r.regular_toJson.denotes hgap

/-- The value of a report depends on nothing but what it tells. -/
theorem Report.toJson_congr {r s : Report} (h : r.told = s.told) : r.toJson = s.toJson := by
  have hfailures : ∀ q : Report, q.failures.map ProducerFailure.toJson = q.told.failures.map
      fun p => .ofFields [("producer", .ofString p.1), ("error", .ofString p.2)] := by
    intro q
    simp [Report.told, ProducerFailure.toJson, Failure.message]
  have hrecords : r.records = s.records := congrArg Told.records h
  rw [Report.toJson, Report.toJson, hfailures, hfailures, h, hrecords]

/-! ## Both -/

/-- **The JSON of a report is read as the report.**  By the grammar it stands for one value, the
reader finds it, and every record and every failure is read off it.  So two reports with the same
JSON tell the same. -/
theorem Report.json_round_trip (r : Report) :
    (∀ j, Json.Denotes r.json.toList j ↔ j = r.toJson) ∧
    Json.parse? r.json.toList = some r.toJson ∧
    Told.ofJson? r.toJson = some r.told ∧
    ∀ s : Report, s.json = r.json ↔ s.told = r.told := by
  have hvalue : ∀ j, Json.Denotes r.json.toList j → j = r.toJson := fun j hj =>
    hj.unique r.denotes_json
  refine ⟨fun j => ⟨hvalue j, ?_⟩, Json.parse?_of_denotes r.denotes_json, r.ofJson?_toJson,
    fun s => ⟨?_, ?_⟩⟩
  · rintro rfl
    exact r.denotes_json
  · intro hjson
    have hdenotes := s.denotes_json
    rw [hjson] at hdenotes
    have htold := s.ofJson?_toJson
    rw [hvalue _ hdenotes, r.ofJson?_toJson] at htold
    exact (Option.some.inj htold).symm
  · intro htold
    rw [Report.json, Report.json, Report.toJson_congr htold]

/-- A report of nothing is still an object. -/
example : (Report.mk [] []).json =
    "\x7b\n  \"diagnostics\": [],\n  \"errors\": []\n\x7d\n" := by
  decide

end WebLint
