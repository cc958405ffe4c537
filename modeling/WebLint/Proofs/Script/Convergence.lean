import WebLint.Proofs.Fixing.Reindent
import WebLint.Proofs.Script.Widths
import WebLint.Proofs.Tree
import WebLint.Proofs.Tree.Moves

/-!
# One round of fixes indents a whole script

The expected indentation of a line is that of another line and some levels more, and
the fixes move everything behind them.  Still the fixed script is indented as expected:
the search for the first token of a line goes the same way in the tree as it has moved,
the line its parent opens on comes earlier, and what is expected of that one is what it
has now.

What is proved here:

* `Moves.follows`, `Moves.start_eq_iff` — nodes compare to the start of a line as they
  did before;
* `lineWidth_moved` — so the line has the expected indentation it had;
* `widths_moved` — which passes from line to line;
* `violations_apply_eq_nil` — and nothing is left to find.
-/

namespace WebLint
namespace ScriptIndentation

open Fixing

/-! ## Nodes that move -/

/-- Fixes of the indentation of a script, and a tree that they do not cut. -/
structure Moves (t : Text) (fs : List Fix) (root : Node) : Prop where
  /-- Each fix indents a line. -/
  indents : ∀ f ∈ fs, f.Indents t
  /-- No two fixes overlap. -/
  apart : fs.Pairwise Fix.Apart
  /-- The tree stands in the text. -/
  placed : root.IsPlaced t
  /-- No node starts with a blank. -/
  unblank : ∀ n ∈ root.preorder, n.StartsUnblank t
  /-- No node starts or ends strictly inside the blanks of a fix. -/
  uncut : ∀ f ∈ fs, ∀ n ∈ root.preorder, ¬ f.Cuts n.start ∧ ¬ f.Cuts n.stop

namespace Moves

variable {t : Text} {fs : List Fix} {root n : Node} {p lineStart : Nat}

theorem valid (h : Moves t fs root) : ∀ f ∈ fs, isValid t f = true := fun f hf =>
  (h.indents f hf).isValid

/-- A place where there is no blank is kept. -/
theorem kept (h : Moves t fs root) (hp : t.isBoundary p = true)
    (hunblank : ∀ c ∈ (t.dropBytes p).head?, Indent.isBlank c = false) :
    ∀ f ∈ fs, f.start ≤ p → f.stop ≤ p :=
  kept_of_indents h.indents hp hunblank

/-- The blanks a fix replaces hold no line feed. -/
theorem keepRows (h : Moves t fs root) : KeepRows t fs := by
  intro f hf
  obtain ⟨hlead, width, hcontent⟩ := h.indents f hf
  rw [hcontent, List.count_eq_zero.2 (Text.not_mem_spaces width),
    List.count_eq_zero.2 (Text.not_mem_of_isBlank hlead.all_isBlank)]

/-- A node that covers the place behind the blanks of a line and starts in front of it
starts in an earlier row, and in the same row as before. -/
theorem row_lt (h : Moves t fs root) (hlead : t.IsLead lineStart p) (hn : n ∈ root.preorder)
    (hcovers : n.Covers p) (hne : n.start ≠ p) :
    t.row n.start < t.row lineStart ∧
      (apply fs t).text.row (moveStart fs n.start) = t.row n.start := by
  have hlt : n.start < n.stop := Nat.lt_of_le_of_lt hcovers.1 hcovers.2
  have hboundary := (h.placed.boundary n hn).1
  have hhead := (h.unblank n hn).isBlank_head h.placed hn hlt
  refine ⟨hlead.row_lt_of_lt hboundary (Nat.lt_of_not_le fun hle => ?_), ?_⟩
  · -- in the line itself only blanks stand in front of the place
    obtain ⟨c, rest, hrest, hblank⟩ := hlead.isBlank_head hboundary hle
      (Nat.lt_of_le_of_ne hcovers.1 hne)
    rw [hhead c (by rw [hrest]; rfl)] at hblank
    cases hblank
  · exact row_apply h.valid h.apart hboundary (uncut_of_kept (h.kept hboundary hhead)) h.keepRows

variable (h : Moves t fs root) (hkept : ∀ f ∈ fs, f.start ≤ p → f.stop ≤ p)
include h hkept

/-- Nodes compare to a place that is kept as they did before. -/
theorem follows (hn : n ∈ root.preorder) :
    Cursor.Follows (moveSpan fs) p (moveStart fs p) n := by
  have hordered := h.placed.ordered n hn
  have hstart : ∀ f ∈ fs, ¬ f.Cuts n.start := fun f hf => (h.uncut f hf n hn).1
  have hstop : ∀ f ∈ fs, ¬ f.Cuts n.stop := fun f hf => (h.uncut f hf n hn).2
  have hmoved : (moveSpan fs n.span).stop = max (moveStart fs n.start) (moveStop fs n.stop) := rfl
  constructor
  · rw [hmoved, Nat.max_le]
    constructor
    · rintro ⟨-, hle⟩
      refine Nat.le_of_not_lt fun hlt => ?_
      have hmoves := moveStart_lt_moveStop h.valid h.apart hlt hkept
      omega
    · intro hle
      exact ⟨moveStart_le h.valid h.apart (Nat.le_trans hordered hle) hstart,
        Nat.le_trans (moveStop_le h.valid h.apart hstop) (moveStart_le h.valid h.apart hle hstop)⟩
  · intro _
    constructor
    · intro hle
      change moveStart fs n.start ≤ moveStart fs p at hle
      refine Nat.le_of_not_lt fun hlt => ?_
      have hmoves := moveStart_lt_moveStop h.valid h.apart hlt hkept
      have hbefore := moveStop_le h.valid h.apart hstart
      omega
    · exact fun hle => moveStart_le h.valid h.apart hle hstart

/-- A node that covers the place starts there when it did before, and in front of it
otherwise. -/
theorem start_eq_iff (hn : n ∈ root.preorder) (hcovers : n.Covers p) :
    moveStart fs n.start ≤ moveStart fs p ∧
      (moveStart fs n.start = moveStart fs p ↔ n.start = p) := by
  have hstart : ∀ f ∈ fs, ¬ f.Cuts n.start := fun f hf => (h.uncut f hf n hn).1
  have hlt : n.start < n.stop := Nat.lt_of_le_of_lt hcovers.1 hcovers.2
  refine ⟨moveStart_le h.valid h.apart hcovers.1 hstart, fun hmoved => ?_, fun heq => by rw [heq]⟩
  refine Nat.le_antisymm hcovers.1 (Nat.le_of_not_lt fun hfront => ?_)
  have hfirst := h.kept (h.placed.boundary n hn).1
    ((h.unblank n hn).isBlank_head h.placed hn hlt)
  have hmoves := moveStart_lt_moveStop h.valid h.apart hfront hfirst
  have hbefore := moveStop_le h.valid h.apart (uncut_of_kept hkept)
  omega

end Moves

/-! ## One line -/

section

variable {d : Document} {o : RuleOptions} {root : Node} {fs : List Fix}

/-- A token without a parent starts no line that is checked. -/
theorem expectedAt_of_above_eq_nil (d : Document) (o : RuleOptions) (lines : List Text)
    (expected : Expected) {token : Cursor} (h : token.above = []) :
    expectedAt d o lines expected token = none := by
  unfold expectedAt
  simp only [h, Cursor.widen]

theorem isUnbracedBody_mapSpan {g : Span → Span} {parent : Node} {place : Cursor} :
    isUnbracedBody (parent.mapSpan g) (place.mapSpan g) = isUnbracedBody parent place := by
  unfold isUnbracedBody
  simp only [Cursor.node_mapSpan, Node.kind_mapSpan, Cursor.fills_mapSpan]

/-- What is expected of a line in a program does not depend on other lines, and what is
expected of another line only on the one its parent opens on. -/
theorem expectedIn_mapSpan {d' : Document} {g : Span → Span} {parent : Node} {place : Cursor}
    {opener opener' : Nat} (hplain : d.regions = none) (hplain' : d'.regions = none)
    (hopener : parent.kind = "program" ∨ opener' = opener) :
    expectedIn d' o opener' (parent.mapSpan g) (place.mapSpan g) =
      expectedIn d o opener parent place := by
  have hbase : ∀ offset offset', d'.baseIndent offset' = d.baseIndent offset := by
    intro offset offset'
    rw [Document.baseIndent, Document.baseIndent, hplain, hplain']
  unfold expectedIn
  simp only [Cursor.node_mapSpan, Node.kind_mapSpan, Cursor.isLastChild_mapSpan,
    isUnbracedBody_mapSpan, hbase place.node.start]
  rcases hopener with hprogram | rfl
  · have hcontainer : containers.contains "program" = false := by decide
    simp only [hcontainer, hprogram, Bool.false_and, Bool.false_eq_true, if_false, if_true]
  · rfl

theorem isInLiteral_mapSpan {g : Span → Span} {token : Cursor} {p p' : Nat}
    (hstart : token.node.start = p) (hstart' : (g token.node.span).start = p')
    (hancestors : ∀ n ∈ token.ancestors, (g n.span).start < p' ↔ n.start < p) :
    isInLiteral (token.mapSpan g) = isInLiteral token := by
  unfold isInLiteral
  rw [Cursor.ancestors_mapSpan, List.any_map]
  rw [Bool.eq_iff_iff, List.any_eq_true, List.any_eq_true]
  refine exists_congr fun n => and_congr_right fun hn => ?_
  simp only [Function.comp_apply, Cursor.node_mapSpan, Node.start_mapSpan, Node.kind_mapSpan,
    hstart, hstart', Bool.and_eq_true, decide_eq_true_eq, hancestors n hn]

/-- The document in which some fixes are applied. -/
abbrev fixed (d : Document) (fs : List Fix) : Document := { d with text := (apply fs d.text).text }

/-- The tree of a script, moved by some fixes. -/
abbrev movedRoot (fs : List Fix) (root : Node) : Node := root.mapSpan (moveSpan fs)

/-- What is expected of a line stays the same when its first token moves, and the lines
above it are indented as they are expected to be. -/
theorem expectedAt_mapSpan (h : Moves d.text fs root) (hplain : d.regions = none)
    {lines lines' : List Text} {expected : Expected} {lineStart p : Nat} {token : Cursor}
    (hlead : d.text.IsLead lineStart p)
    (habove : ∀ row < d.text.row lineStart,
      indentOf lines' expected row = indentOf lines expected row)
    (hstart : token.node.start = p)
    (hcovers : ∀ n ∈ token.node :: token.ancestors, n ∈ root.preorder ∧ n.Covers p) :
    expectedAt (fixed d fs) o lines' expected (token.mapSpan (moveSpan fs)) =
      expectedAt d o lines expected token := by
  have hkept := h.kept hlead.boundary.2 hlead.isBlank_head_stop
  obtain ⟨hplace, hparent⟩ := Cursor.widen_spec token.above hstart
  have hwiden := Cursor.widen_mapSpan (g := moveSpan fs) token.above hstart
    fun n hn => (h.start_eq_iff hkept (hcovers n hn).1 (hcovers n hn).2).2
  unfold expectedAt
  simp only [Cursor.node_mapSpan, Cursor.above_mapSpan, hwiden]
  cases hsteps : (Cursor.widen token.node token.above).above with
  | nil => rfl
  | cons s above =>
    obtain ⟨hmem, hs⟩ := hparent s (by rw [hsteps]; rfl)
    obtain ⟨hn, hcovers⟩ := hcovers s.parent (List.mem_cons_of_mem _ hmem)
    refine expectedIn_mapSpan hplain hplain ?_
    rcases hs with hne | hprogram
    · obtain ⟨hlt, hrow⟩ := h.row_lt hlead hn hcovers hne
      refine Or.inr ?_
      rw [show (Step.mapSpan (moveSpan fs) s).parent.start = moveStart fs s.parent.start from
        Node.start_mapSpan, hrow]
      exact habove _ hlt
    · exact Or.inl hprogram

/-- **A line keeps its expected indentation** when the lines above it are indented as they
are expected to be. -/
theorem tokenAt_moved (h : Moves d.text fs root) (hplain : d.regions = none)
    {lines lines' : List Text} {expected : Expected} {lineStart lineStart' p : Nat}
    (hlead : d.text.IsLead lineStart p)
    (habove : ∀ row < d.text.row lineStart,
      indentOf lines' expected row = indentOf lines expected row) :
    (tokenAt (fixed d fs) (movedRoot fs root) lineStart' (moveStart fs p)).bind
        (expectedAt (fixed d fs) o lines' expected) =
      (tokenAt d root lineStart p).bind (expectedAt d o lines expected) := by
  have hkept := h.kept hlead.boundary.2 hlead.isBlank_head_stop
  have htoken : Cursor.spanning (movedRoot fs root) (moveStart fs p) (moveStart fs p + 1) =
      (Cursor.spanning root p (p + 1)).mapSpan (moveSpan fs) :=
    Cursor.narrow_mapSpan (fun n hn => h.follows hkept hn) []
  have hin : d.contains lineStart p = true := by
    rw [Document.contains, hplain]
    exact decide_eq_true (Text.le_byteLength_of_isBoundary hlead.boundary.2)
  have hin' : (fixed d fs).contains lineStart' (moveStart fs p) = true := by
    rw [Document.contains, hplain]
    exact decide_eq_true (Text.le_byteLength_of_isBoundary
      (dropBytes_apply h.valid h.apart hlead.boundary.2 (uncut_of_kept hkept)).1)
  have hcovers := Cursor.spanning_covers (p := p) h.placed
  unfold tokenAt
  simp only [hin, hin', if_true, htoken]
  generalize Cursor.spanning root p (p + 1) = token at *
  rcases hcovers with hroot | hcovers
  · -- the root starts no line that is checked
    have hroot' : (token.mapSpan (moveSpan fs)).above = [] := by simp [hroot]
    have hnone := expectedAt_of_above_eq_nil d o lines expected hroot
    have hnone' := expectedAt_of_above_eq_nil (fixed d fs) o lines' expected hroot'
    split <;> split <;> simp [hnone, hnone']
  have hstarts : ∀ n ∈ token.node :: token.ancestors,
      moveStart fs n.start ≤ moveStart fs p ∧
        (moveStart fs n.start = moveStart fs p ↔ n.start = p) := fun n hn =>
    h.start_eq_iff hkept (hcovers n hn).1 (hcovers n hn).2
  have hnode := (hstarts token.node List.mem_cons_self).2
  have hstart' : (token.mapSpan (moveSpan fs)).node.start = moveStart fs token.node.start :=
    Node.start_mapSpan
  rw [hstart']
  by_cases hstart : token.node.start = p
  · have hliteral : isInLiteral (token.mapSpan (moveSpan fs)) = isInLiteral token := by
      refine isInLiteral_mapSpan hstart (hnode.2 hstart) fun n hn => ?_
      obtain ⟨hle, heq⟩ := hstarts n (List.mem_cons_of_mem _ hn)
      have hfront := (hcovers n (List.mem_cons_of_mem _ hn)).2.1
      change moveStart fs n.start < moveStart fs p ↔ _
      omega
    simp only [hstart, true_and, hliteral, Cursor.node_mapSpan, Node.kind_mapSpan]
    split
    · exact expectedAt_mapSpan h hplain hlead habove hstart hcovers
    · rfl
  · have hmoved : ¬ moveStart fs token.node.start = moveStart fs p :=
      fun heq => hstart (hnode.1 heq)
    simp only [hstart, hmoved, false_and, if_false]
    rfl

/-! ## Line by line -/

theorem relayAll_append {as bs : List Text} {us vs : List (Option Nat)}
    (hlength : us.length = as.length) :
    relayAll (as ++ bs) (us ++ vs) = relayAll as us ++ relayAll bs vs :=
  List.zipWith_append hlength.symm

/-- A line that is checked still is, with the expected indentation it had, when the lines
above it are indented as they are expected to be. -/
theorem lineWidth_moved {as bs : List Text} {us vs : List (Option Nat)} {line : Text}
    {width : Option Nat} {lines' : List Text} {expected : Expected}
    (h : Moves d.text fs root) (hplain : d.regions = none)
    (hfs : fs = lineFixes d.text.placedLines (us ++ width :: vs))
    (hlines : d.text.lines = as ++ line :: bs) (hlength : us.length = as.length)
    (habove : ∀ row < as.length,
      indentOf lines' expected row = indentOf d.text.lines expected row) :
    lineWidth (fixed d fs) o (movedRoot fs root) lines' expected (Text.extent (relayAll as us))
        (relay line width) =
      lineWidth d o root d.text.lines expected (Text.extent as) line := by
  have hlead := Text.isLead_of_mem_placedLines (Text.mem_placedLines_of_append hlines)
  have hmoved : Text.extent (relayAll as us) + (Indent.ofLine (relay line width)).byteLength =
      moveStart fs (Text.extent as + (Indent.ofLine line).byteLength) := by
    rw [hfs, moveStart_lineFixes hlines hlength]
  unfold lineWidth
  rw [dropWhile_relay, hmoved]
  split
  · rfl
  · exact tokenAt_moved h hplain hlead (by rwa [Text.row_extent hlines])

/-- A line in its expected indentation has no violation. -/
theorem checkLine_relay {lines : List Text} {expected : Expected} {lineStart : Nat} {line : Text}
    {width : Option Nat}
    (h : lineWidth d o root lines expected lineStart (relay line width) = width) :
    checkLine d o root lines expected lineStart (relay line width) =
      width.map fun w => (w, none) := by
  rw [← map_fst_checkLine] at h
  cases hline : checkLine d o root lines expected lineStart (relay line width) with
  | none =>
    rw [hline] at h
    rw [← h]
    rfl
  | some checked =>
    obtain ⟨w, found⟩ := checked
    obtain ⟨-, token, rfl⟩ := checkLine_eq_some hline
    rw [hline] at h
    rw [← h, Option.map_some, (ofLine_relay line w).1, if_pos (Indent.isFitting_spaces w)]
    rfl

/-- The expected indentations by row, once another row has been looked at. -/
def note (expected : Expected) (row : Nat) : Option Nat → Expected
  | none => expected
  | some width => (row, width) :: expected

theorem widths_cons {lines : List Text} {row : Nat} {expected : Expected} {lineStart : Nat}
    {line : Text} {rest : List (Nat × Text)} {width : Option Nat}
    (h : lineWidth d o root lines expected lineStart line = width) :
    widths d o root lines row expected ((lineStart, line) :: rest) =
      width :: widths d o root lines (row + 1) (note expected row width) rest := by
  rw [widths, h]
  cases width with
  | none => rfl
  | some width => rfl

theorem checkLines_cons {lines : List Text} {row : Nat} {expected : Expected} {lineStart : Nat}
    {line : Text} {rest : List (Nat × Text)} {width : Option Nat}
    (h : checkLine d o root lines expected lineStart line = width.map fun w => (w, none)) :
    checkLines d o root lines row expected ((lineStart, line) :: rest) =
      checkLines d o root lines (row + 1) (note expected row width) rest := by
  rw [checkLines, h]
  cases width with
  | none => rfl
  | some width => rfl

/-- Rows that are indented as they are expected to be still are when the next one is looked
at: it has its expected indentation, or the one it had. -/
theorem indentOf_note {lines lines' : List Text} {row : Nat} {expected : Expected}
    {width : Option Nat}
    (habove : ∀ r < row, indentOf lines' expected r = indentOf lines expected r)
    (hrow : width = none → lines'.getD row [] = lines.getD row []) :
    ∀ r < row + 1, indentOf lines' (note expected row width) r =
      indentOf lines (note expected row width) r := by
  intro r hr
  rcases Nat.lt_or_eq_of_le (Nat.le_of_lt_succ hr) with hlt | rfl
  · cases width with
    | none => exact habove r hlt
    | some width =>
      have hne : (r == row) = false := by simpa using Nat.ne_of_lt hlt
      have hskip : ∀ ls,
          indentOf ls (note expected row (some width)) r = indentOf ls expected r := by
        intro ls
        rw [indentOf, note, List.lookup_cons, hne]
        rfl
      rw [hskip, hskip, habove r hlt]
  · cases width with
    | none => rw [note, indentOf, indentOf, hrow rfl]
    | some width => simp [indentOf, note]

/-- From a line on, the lines keep their expected indentations, and have no violations. -/
theorem widths_moved (as bs : List Text) (us vs : List (Option Nat)) (expected : Expected)
    (h : Moves d.text fs root) (hplain : d.regions = none)
    (hfs : fs = lineFixes d.text.placedLines (us ++ vs))
    (hlines : d.text.lines = as ++ bs) (hlength : us.length = as.length)
    (hvs : vs = widths d o root d.text.lines as.length expected
      (Text.placeLines (Text.extent as) bs))
    (habove : ∀ row < as.length, indentOf (relayAll d.text.lines (us ++ vs)) expected row =
      indentOf d.text.lines expected row) :
    widths (fixed d fs) o (movedRoot fs root) (relayAll d.text.lines (us ++ vs)) as.length expected
        (Text.placeLines (Text.extent (relayAll as us)) (relayAll bs vs)) = vs ∧
      checkLines (fixed d fs) o (movedRoot fs root) (relayAll d.text.lines (us ++ vs)) as.length
        expected (Text.placeLines (Text.extent (relayAll as us)) (relayAll bs vs)) = [] := by
  induction bs generalizing as us vs expected with
  | nil =>
    subst hvs
    exact ⟨rfl, rfl⟩
  | cons line bs ih =>
    obtain ⟨width, hwidth⟩ : ∃ width,
        lineWidth d o root d.text.lines expected (Text.extent as) line = width := ⟨_, rfl⟩
    obtain ⟨vs', hvs'⟩ : ∃ vs', widths d o root d.text.lines (as.length + 1)
        (note expected as.length width)
        (Text.placeLines (Text.extent as + line.byteLength + 1) bs) = vs' := ⟨_, rfl⟩
    obtain rfl : vs = width :: vs' := by
      rw [hvs, Text.placeLines, widths_cons hwidth, hvs']
    have hline := (lineWidth_moved h hplain hfs hlines hlength habove).trans hwidth
    -- the lines as they are seen from the next one
    have hwidths : us ++ [width] ++ vs' = us ++ width :: vs' := by simp
    have hbefore : relayAll (as ++ [line]) (us ++ [width]) = relayAll as us ++ [relay line width] :=
      relayAll_append hlength
    have hall : relayAll d.text.lines (us ++ width :: vs') =
        relayAll as us ++ relay line width :: relayAll bs vs' := by
      rw [hlines, relayAll_append hlength]
      rfl
    have hrelaid : (relayAll as us).length = as.length := by
      rw [relayAll, List.length_zipWith, hlength, Nat.min_self]
    have hget : ∀ (xs : List Text) (x : Text) (ys : List Text),
        (xs ++ x :: ys).getD xs.length [] = x := by simp
    have hnext := ih (as ++ [line]) (us ++ [width]) vs' (note expected as.length width)
      (by rw [hwidths, hfs]) (by rw [hlines]; simp) (by simp [hlength]) (by
        rw [← hvs', Text.extent_append, List.length_append]
        rfl) (by
        rw [hwidths, List.length_append]
        refine indentOf_note habove fun hnone => ?_
        have hnew := hget (relayAll as us) (relay line width) (relayAll bs vs')
        rw [hrelaid] at hnew
        rw [hall, hlines, hnew, hget, hnone, relay])
    rw [hwidths, hbefore, Text.extent_append, List.length_append] at hnext
    change widths (fixed d fs) o (movedRoot fs root) _ as.length expected
        ((Text.extent (relayAll as us), relay line width) ::
          Text.placeLines _ (relayAll bs vs')) = _ ∧
      checkLines (fixed d fs) o (movedRoot fs root) _ as.length expected
        ((Text.extent (relayAll as us), relay line width) ::
          Text.placeLines _ (relayAll bs vs')) = _
    rw [widths_cons hline, checkLines_cons (checkLine_relay hline)]
    exact ⟨congrArg (width :: ·) hnext.1, hnext.2⟩

end

/-! ## The whole script -/

/-- **One round of fixes indents a whole script.**  Whatever tree a script without regions
has, if only nodes are placed as a parser places them, none starts with a blank and none
starts or ends strictly inside the blanks that a fix replaces: when the fixes are applied
and the nodes move along with the text they cover, the same lines are checked, the same
indentations are expected of them, and there are no violations any more. -/
theorem violations_apply_eq_nil (d : Document) (o : RuleOptions) (root : Node)
    (hplain : d.regions = none) (hplaced : root.IsPlaced d.text)
    (hunblank : ∀ n ∈ root.preorder, n.StartsUnblank d.text)
    (huncut : ∀ f ∈ (violations d o root).filterMap (·.fix), ∀ n ∈ root.preorder,
      ¬ f.Cuts n.start ∧ ¬ f.Cuts n.stop) :
    let repairs := (violations d o root).filterMap (·.fix)
    let repaired : Document := { d with text := (apply repairs d.text).text }
    let moved := root.mapSpan (moveSpan repairs)
    expectedWidths repaired o moved = expectedWidths d o root ∧
      violations repaired o moved = [] := by
  intro repairs repaired moved
  have hfixes : repairs = lineFixes d.text.placedLines (expectedWidths d o root) :=
    filterMap_fix_violations
  have hmoves : Moves d.text repairs root := by
    refine ⟨fun f hf => ?_, ?_, hplaced, hunblank, huncut⟩
    · rw [hfixes] at hf
      exact indents_of_mem_lineFixes hf
    · rw [hfixes]
      exact (lineFixes_inOrder _ _).2.1
  have hlines : repaired.text.lines = relayAll d.text.lines (expectedWidths d o root) := by
    change (apply repairs d.text).text.lines = _
    rw [hfixes]
    refine lines_apply_lineFixes ?_
    rw [expectedWidths, length_widths, Text.placedLines, Text.length_placeLines]
  have hround := widths_moved [] d.text.lines [] (expectedWidths d o root) [] hmoves hplain hfixes
    rfl rfl rfl fun row hrow => absurd hrow (Nat.not_lt_zero row)
  rw [expectedWidths, violations, Text.placedLines, hlines]
  exact hround

/-! ### A block -/

/-- A block whose statement and closing brace are not indented as expected. -/
def crookedBlock : Document := ⟨⟨"a.js"⟩, "\x7b\n b\n  \x7d".toList, .script, none⟩

/-- The tree of this block. -/
def crookedTree : Node :=
  .construct "program" 0 8
    [.construct "statement_block" 0 8
      [.token "\x7b" 0, .construct "expression_statement" 3 4 [.construct "identifier" 3 4],
       .token "\x7d" 7]]

/-- The block is indented as expected after one round. -/
theorem violations_crookedBlock :
    let repairs := (violations crookedBlock {} crookedTree).filterMap (·.fix)
    repairs = [⟨2, 3, Indent.spaces 4⟩, ⟨5, 7, []⟩] ∧
      (apply repairs crookedBlock.text).text = "\x7b\n    b\n\x7d".toList ∧
      violations { crookedBlock with text := (apply repairs crookedBlock.text).text } {}
        (crookedTree.mapSpan (moveSpan repairs)) = [] := by
  intro repairs
  have hrepairs : (violations crookedBlock {} crookedTree).filterMap (·.fix) =
      [⟨2, 3, Indent.spaces 4⟩, ⟨5, 7, []⟩] := by decide +kernel
  have hround := violations_apply_eq_nil crookedBlock {} crookedTree rfl (by decide +kernel)
    (by decide +kernel) (by rw [hrepairs]; decide +kernel)
  refine ⟨hrepairs, ?_, hround.2⟩
  change (apply ((violations crookedBlock {} crookedTree).filterMap (·.fix)) _).text = _
  rw [hrepairs, apply, sort_eq_self (by decide +kernel)]
  decide +kernel

end ScriptIndentation
end WebLint
