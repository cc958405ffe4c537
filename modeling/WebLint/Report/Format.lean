import WebLint.Json.Printer
import WebLint.Report

/-!
# Report formats

A report is written in one of three formats: as a summary for a reader, as
annotations for a code review, or as JSON.
-/

namespace WebLint

/-- The formats a report is written in. -/
inductive ReportFormat where
  /-- A summary line, then a line for each record. -/
  | concise
  /-- An annotation for each record. -/
  | github
  /-- JSON. -/
  | json
  deriving DecidableEq, Repr, Inhabited

namespace ReportFormat

/-- The formats, in order. -/
def all : List ReportFormat := [.concise, .github, .json]

/-- The name of a format. -/
def name : ReportFormat → String
  | .concise => "concise"
  | .github => "github"
  | .json => "json"

/-- The format of a name. -/
def ofName (text : String) : Option ReportFormat := all.find? (·.name == text)

end ReportFormat

/-! ## Lines -/

namespace Record

/-- Where a record is about. -/
def place (r : Record) : String :=
  r.file ++ ":" ++ toString r.line ++ ":" ++ toString r.column

/-- A record as a line of a summary. -/
def summaryLine (r : Record) : String := "  " ++ r.place ++ ": " ++ r.message ++ "\n"

/-- How an annotation calls a severity. -/
def annotationCommand : Level → String
  | .warn => "warning"
  | .error => "error"
  | .off => "error"

/-- A record as an annotation.  Its place is written twice: once for the
review, and once for those who read the log of the review. -/
def annotation (r : Record) : String :=
  "::" ++ annotationCommand r.severity ++ " title=lint (" ++ r.rule ++ "),file=" ++ r.file ++
    ",line=" ++ toString r.line ++ ",col=" ++ toString r.column ++ "::" ++ r.place ++ ": " ++
    r.message ++ "\n"

/-- A record as JSON. -/
def toJson (r : Record) : Json :=
  .ofFields
    [("file", .ofString r.file), ("line", .ofNat r.line), ("column", .ofNat r.column),
     ("message", .ofString r.message), ("rule", .ofString r.rule),
     ("severity", .ofString r.severity.name), ("producer", .ofString r.producer)]

end Record

/-- A producer that failed, as JSON. -/
def ProducerFailure.toJson (f : ProducerFailure) : Json :=
  .ofFields [("producer", .ofString f.producer), ("error", .ofString f.failure.message)]

/-! ## Reports -/

namespace Report

/-- A report as a summary.  There is none when there are no records. -/
def concise (r : Report) : String :=
  if r.records.isEmpty then ""
  else
    let count := r.records.length
    toString count ++ (if count = 1 then " problem" else " problems") ++ " found\n" ++
      String.join (r.records.map Record.summaryLine)

/-- A report as annotations. -/
def github (r : Report) : String := String.join (r.records.map Record.annotation)

/-- A report as a JSON value. -/
def toJson (r : Report) : Json :=
  .ofFields
    [("diagnostics", .array (r.records.map Record.toJson)),
     ("errors", .array (r.failures.map ProducerFailure.toJson))]

/-- A report as JSON. -/
def json (r : Report) : String := String.ofList (r.toJson.pretty ++ ['\n'])

/-- A report in one of the formats. -/
def write (r : Report) : ReportFormat → String
  | .concise => r.concise
  | .github => r.github
  | .json => r.json

end Report

end WebLint
