import Mathlib.Data.List.Basic
import Mathlib.Data.List.Forall2
import WebLint.Proofs.Checker
import WebLint.Proofs.Diagnostic
import WebLint.Proofs.Style.Selector
import WebLint.Report.Format

/-!
# The lines of a report

A summary and a list of annotations are read line by line: each record is to have a line of its
own.  Both write the file and the message of a record as they are, and a message may quote
several lines of a sheet.  A line feed in it ends the line too early, and what is behind it
looks like a line of another record.

What is proved here:

* `isLineEach_iff` — a line for each member of a list is one line each, unless some of them
  hold line feeds of their own;
* `lineEach_iff` — the records of a report have a line each, in both formats, exactly when no
  line feed stands in what they quote.
-/

namespace WebLint

/-! ## A line for each member -/

/-- Whether a text is one line for each member of a list, in order, each line being about its
member and ended by a line feed. -/
def IsLineEach {α : Type} (About : α → Text → Prop) (xs : List α) (t : Text) : Prop :=
  ∃ ls : List Text, List.Forall₂ About xs ls ∧ (∀ l ∈ ls, '\n' ∉ l) ∧ t = ls.flatMap (· ++ ['\n'])

section

variable {α : Type} {body : α → Text} {xs : List α}

theorem length_le_count_newline (body : α → Text) (xs : List α) :
    xs.length ≤ (xs.flatMap fun x => body x ++ ['\n']).count '\n' := by
  induction xs with
  | nil => exact Nat.zero_le _
  | cons x xs ih =>
    simp only [List.flatMap_cons, List.count_append, List.count_singleton_self, List.length_cons]
    omega

/-- With as many line feeds as members, none of them holds one of its own. -/
theorem count_newline_eq_length_iff :
    (xs.flatMap fun x => body x ++ ['\n']).count '\n' = xs.length ↔ ∀ x ∈ xs, '\n' ∉ body x := by
  induction xs with
  | nil => simp
  | cons x xs ih =>
    have hrest := length_le_count_newline body xs
    rw [List.forall_mem_cons, ← ih, ← List.count_eq_zero]
    simp only [List.flatMap_cons, List.count_append, List.count_singleton_self, List.length_cons]
    omega

/-- A text that is one line each has as many line feeds as members. -/
theorem IsLineEach.count_newline {About : α → Text → Prop} {t : Text} (h : IsLineEach About xs t) :
    t.count '\n' = xs.length := by
  obtain ⟨ls, habout, hfree, rfl⟩ := h
  rw [habout.length_eq]
  exact (@count_newline_eq_length_iff _ id ls).2 hfree

/-- What is written member by member is one line each when no member holds a line feed, and only
then. -/
theorem isLineEach_iff {About : α → Text → Prop} (habout : ∀ x, About x (body x)) :
    IsLineEach About xs (xs.flatMap fun x => body x ++ ['\n']) ↔ ∀ x ∈ xs, '\n' ∉ body x := by
  constructor
  · intro h
    exact count_newline_eq_length_iff.1 h.count_newline
  · intro hfree
    refine ⟨xs.map body, List.forall₂_map_right_iff.2 (List.forall₂_same.2 fun x _ => habout x),
      ?_, by rw [List.flatMap_map]⟩
    intro l hl
    obtain ⟨x, hx, rfl⟩ := List.mem_map.1 hl
    exact hfree x hx

end

/-- A number is written without line feeds. -/
theorem not_mem_newline_toDigits (n : Nat) : '\n' ∉ Nat.toDigits 10 n := by
  intro hmem
  have hdigit := Nat.isDigit_of_mem_toDigits (by decide) (by decide) hmem
  exact absurd hdigit (by decide)

/-! ## The lines of records -/

namespace Record

/-- What both formats say of a record: its place and its message. -/
def account (r : Record) : String := r.place ++ ": " ++ r.message

/-- Whether a line is the annotation of a record. -/
def IsAnnotatedBy (r : Record) (l : Text) : Prop :=
  ("::error ".toList <+: l ∨ "::warning ".toList <+: l) ∧ r.account.toList <:+ l

/-- Whether a line is the line of a record in a summary. -/
def IsSummedUpBy (r : Record) (l : Text) : Prop := l = "  ".toList ++ r.account.toList

/-- The annotation of a record in front of its account. -/
def annotationHead (r : Record) : String :=
  "::" ++ annotationCommand r.severity ++ " title=lint (" ++ r.rule ++ "),file=" ++ r.file ++
    ",line=" ++ toString r.line ++ ",col=" ++ toString r.column ++ "::"

theorem toList_summaryLine (r : Record) :
    r.summaryLine.toList = ("  ".toList ++ r.account.toList) ++ ['\n'] := by
  simp [summaryLine, account]

theorem toList_annotation (r : Record) :
    r.annotation.toList = (r.annotationHead.toList ++ r.account.toList) ++ ['\n'] := by
  have hcut : r.annotation = r.annotationHead ++ r.place ++ ": " ++ r.message ++ "\n" := rfl
  simp only [hcut, account, String.toList_append, List.append_assoc]
  rfl

theorem newline_mem_account {r : Record} :
    '\n' ∈ r.account.toList ↔ '\n' ∈ r.file.toList ∨ '\n' ∈ r.message.toList := by
  simp [account, place, not_mem_newline_toDigits]

theorem newline_mem_annotationHead {r : Record} :
    '\n' ∈ r.annotationHead.toList ↔ '\n' ∈ r.rule.toList ∨ '\n' ∈ r.file.toList := by
  have hcommand : '\n' ∉ (annotationCommand r.severity).toList := by
    cases r.severity <;> decide
  -- not `unfold`: the equation of so long a string takes seconds to prove
  delta annotationHead
  simp [not_mem_newline_toDigits, hcommand]

theorem isSummedUpBy_account (r : Record) :
    r.IsSummedUpBy ("  ".toList ++ r.account.toList) := rfl

theorem isAnnotatedBy_account (r : Record) :
    r.IsAnnotatedBy (r.annotationHead.toList ++ r.account.toList) := by
  refine ⟨?_, List.suffix_append _ _⟩
  cases hseverity : r.severity with
  | warn =>
    refine Or.inr (List.isPrefixOf_iff_prefix.1 ?_)
    delta annotationHead
    simp [hseverity, annotationCommand]
  | error =>
    refine Or.inl (List.isPrefixOf_iff_prefix.1 ?_)
    delta annotationHead
    simp [hseverity, annotationCommand]
  | off =>
    refine Or.inl (List.isPrefixOf_iff_prefix.1 ?_)
    delta annotationHead
    simp [hseverity, annotationCommand]

end Record

/-! ## Whole reports -/

namespace Report

/-- Whether a text is a summary of some records: nothing if there are none, and otherwise one
line about all of them, and one line for each. -/
def IsSummary (rs : List Record) (t : Text) : Prop :=
  (rs = [] → t = []) ∧
    (rs ≠ [] → ∃ headline rest, '\n' ∉ headline ∧ t = headline ++ '\n' :: rest ∧
      IsLineEach Record.IsSummedUpBy rs rest)

/-- The first line of a summary. -/
def headline (count : Nat) : String :=
  toString count ++ (if count = 1 then " problem" else " problems") ++ " found"

theorem not_mem_newline_headline (count : Nat) : '\n' ∉ (headline count).toList := by
  have hnoun : '\n' ∉ (if count = 1 then " problem" else " problems").toList := by
    split <;> decide
  simp [headline, not_mem_newline_toDigits, hnoun]

theorem toList_github (r : Report) :
    r.github.toList =
      r.records.flatMap fun s => (s.annotationHead.toList ++ s.account.toList) ++ ['\n'] := by
  rw [github, String.toList_join, List.flatMap_map]
  exact List.flatMap_congr fun s _ => s.toList_annotation

theorem toList_concise {r : Report} (h : r.records ≠ []) :
    r.concise.toList = (headline r.records.length).toList ++ '\n' ::
      r.records.flatMap fun s => ("  ".toList ++ s.account.toList) ++ ['\n'] := by
  have hlines : (String.join (r.records.map Record.summaryLine)).toList =
      r.records.flatMap fun s => ("  ".toList ++ s.account.toList) ++ ['\n'] := by
    rw [String.toList_join, List.flatMap_map]
    exact List.flatMap_congr fun s _ => s.toList_summaryLine
  rw [concise, if_neg (by simpa using h), ← hlines]
  simp [headline]

/-- The records are summed up line by line exactly when no file and no message holds a line
feed. -/
theorem isSummary_iff (r : Report) :
    IsSummary r.records r.concise.toList ↔
      ∀ s ∈ r.records, '\n' ∉ s.file.toList ∧ '\n' ∉ s.message.toList := by
  have hfree : (∀ s ∈ r.records, '\n' ∉ s.file.toList ∧ '\n' ∉ s.message.toList) ↔
      ∀ s ∈ r.records, '\n' ∉ "  ".toList ++ s.account.toList := by
    refine forall₂_congr fun s _ => ?_
    rw [List.mem_append, Record.newline_mem_account]
    simp [not_or]
  rw [hfree]
  by_cases hnil : r.records = []
  · rw [IsSummary, hnil]
    simp [concise, hnil]
  constructor
  · rintro ⟨-, hlines⟩
    obtain ⟨first, rest, hfirst, htext, heach⟩ := hlines hnil
    rw [toList_concise hnil] at htext
    have hcount := congrArg (List.count '\n') htext
    simp only [List.count_append, List.count_cons_self, heach.count_newline,
      List.count_eq_zero.2 hfirst, List.count_eq_zero.2 (not_mem_newline_headline _)] at hcount
    exact count_newline_eq_length_iff.1 (by omega)
  · intro hlines
    refine ⟨fun h => absurd h hnil, fun _ => ⟨_, _, not_mem_newline_headline _,
      toList_concise hnil, (isLineEach_iff Record.isSummedUpBy_account).2 hlines⟩⟩

/-- **Records take a line each unless they quote line feeds.**  The annotations of a report are
one line for each record, in order, and begin with `::error` or `::warning`, exactly when no
rule, file or message of a record holds a line feed; and its summary is one line about all of
the records and one line for each, or nothing at all, exactly when no file or message does. -/
theorem lineEach_iff (r : Report) :
    (IsLineEach Record.IsAnnotatedBy r.records r.github.toList ↔
        ∀ s ∈ r.records,
          '\n' ∉ s.rule.toList ∧ '\n' ∉ s.file.toList ∧ '\n' ∉ s.message.toList) ∧
      (IsSummary r.records r.concise.toList ↔
        ∀ s ∈ r.records, '\n' ∉ s.file.toList ∧ '\n' ∉ s.message.toList) := by
  refine ⟨?_, isSummary_iff r⟩
  rw [toList_github, isLineEach_iff Record.isAnnotatedBy_account]
  refine forall₂_congr fun s _ => ?_
  rw [List.mem_append, Record.newline_mem_annotationHead, Record.newline_mem_account]
  simp only [not_or]
  constructor
  · rintro ⟨⟨hrule, hfile⟩, -, hmessage⟩
    exact ⟨hrule, hfile, hmessage⟩
  · rintro ⟨hrule, hfile, hmessage⟩
    exact ⟨⟨hrule, hfile⟩, hfile, hmessage⟩

/-! ### A value on two lines -/

/-- A sheet with the same declaration twice, its value written on two lines. -/
def wrappedSheet : Text := "a\x7bx:1\n2;x:1\n2\x7d".toList

/-- The tree of the declaration, with the semicolon behind it or without. -/
def wrappedDeclaration (start : Nat) (semicolon : List Node) : Node :=
  .construct "declaration" start (start + 5 + semicolon.length)
    ([.construct "property_name" start (start + 1), .token ":" (start + 1),
      .construct "integer_value" (start + 2) (start + 3),
      .construct "integer_value" (start + 4) (start + 5)] ++ semicolon)

/-- The tree of the sheet. -/
def wrappedRoot : Node :=
  .construct "stylesheet" 0 14
    [.construct "rule_set" 0 14
      [.construct "selectors" 0 1 [.construct "tag_name" 0 1],
       .construct "block" 1 14
        [.token "\x7b" 1, wrappedDeclaration 2 [.token ";" 7], wrappedDeclaration 8 [],
         .token "\x7d" 13]]]

/-- The trees of the sheet and of its selector. -/
def wrappedTrees : ParseTable :=
  ⟨.css, wrappedSheet, none, ⟨false, wrappedRoot⟩⟩ :: Duplicates.linkTrees

/-- What the checker of stylesheets reports of the sheet. -/
def wrappedReport : Report :=
  ofBatches [Batch.ofOutcome "style"
    (Checker.style.checkText wrappedTrees.parser Checker.repetitionPlan ⟨"a.css"⟩
      wrappedSheet).value (Diagnostic.toRecord none)]

/-- The declaration is reported where it stands again, in a message of two lines. -/
theorem records_wrappedReport :
    wrappedReport.records =
      [{ file := "a.css", line := 2, column := 3,
         message := "Expected no duplicate declarations. Found x: 1\n2",
         rule := "no-duplicate-declarations", severity := .error, producer := "style" }] := by
  let d := Checker.style.document wrappedTrees.parser ⟨"a.css"⟩ wrappedSheet
  have hanalysis : Checker.style.analysis wrappedTrees.parser Checker.repetitionPlan d
      wrappedRoot = .ok [{ rule := .noDuplicateDeclarations,
                           message := "Expected no duplicate declarations. Found x: 1\n2",
                           span := ⟨8, 13⟩ }] :=
    Checker.eq_ok_of_toOption (by decide +kernel)
  rw [wrappedReport, Checker.checkText_of_analysis rfl rfl hanalysis, List.map_cons, List.map_nil,
    Diagnostic.sort_singleton]
  exact List.mergeSort_singleton _

/-- Neither format has one line for the record: each breaks it where its message is broken. -/
theorem not_lineEach_wrappedReport :
    ¬ IsLineEach Record.IsAnnotatedBy wrappedReport.records wrappedReport.github.toList ∧
      ¬ IsSummary wrappedReport.records wrappedReport.concise.toList := by
  obtain ⟨s, hs, hbroken⟩ : ∃ s ∈ wrappedReport.records, '\n' ∈ s.message.toList := by
    rw [records_wrappedReport]
    exact ⟨_, List.mem_cons_self, by decide⟩
  constructor
  · intro h
    rw [toList_github, isLineEach_iff Record.isAnnotatedBy_account] at h
    exact h s hs (List.mem_append_right _ (Record.newline_mem_account.2 (Or.inr hbroken)))
  · intro h
    exact ((isSummary_iff _).1 h s hs).2 hbroken

end Report
end WebLint
