import WebLint.Proofs.Script.Widths

/-!
# Widths of a script

The expected indentation of a line of a script is that of an earlier line and some levels more.
Which line a line is measured from, and how many levels deeper it is, does not depend on any
width: it can be told for each line before the first sum is formed.

What is proved here:

* `lineWidth_eq`, `expectedWidths_eq` — the expected indentations are a pass over what lines are
  measured by;
* `expectedWidths_le` — they grow by a few levels from one line to the next, and no faster.
-/

namespace WebLint
namespace ScriptIndentation

/-! ## What lines are measured by -/

/-- How the indentation of a line follows from that of the line its parent opens on. -/
inductive Aim where
  /-- It does not. -/
  | fixed (width : Nat)
  /-- It is the same. -/
  | alike
  /-- It is some levels deeper. -/
  | deeper (levels : Nat)

namespace Aim

/-- The indentation of a line when its parent opens on a line indented by `opener`, and a level
is `spaces` wide. -/
def width (spaces opener : Nat) : Aim → Nat
  | fixed width => width
  | alike => opener
  | deeper levels => opener + levels * spaces

/-- Whether a line is indented by no more than `base`, or by no more than `levels` levels. -/
def IsWithin (base levels : Nat) : Aim → Prop
  | fixed width => width ≤ base
  | alike => True
  | deeper more => more ≤ levels

variable {spaces opener base levels bound : Nat} {aim : Aim}

/-- From one line to the next a bound on the indentation grows by as many levels as a line may
be deeper. -/
theorem width_le (h : aim.IsWithin base levels) (hbase : base ≤ bound) (hopener : opener ≤ bound) :
    aim.width spaces opener ≤ bound + levels * spaces := by
  cases aim with
  | fixed width => exact Nat.le_add_right_of_le (Nat.le_trans h hbase)
  | alike => exact Nat.le_add_right_of_le hopener
  | deeper more => exact Nat.add_le_add hopener (Nat.mul_le_mul_right spaces h)

end Aim

section

variable {d : Document} {o : RuleOptions} {root : Node} {lines : List Text}

/-- How the indentation of a line that starts with `place` follows from that of the line its
parent opens on, if the line is checked. -/
def aimIn (d : Document) (o : RuleOptions) (parent : Node) (place : Cursor) : Option Aim :=
  if closingBrackets.contains place.node.kind then
    if containers.contains parent.kind && place.isLastChild then some .alike else none
  else if parent.kind = "program" then some (.fixed (d.baseIndent place.node.start))
  else if parent.kind = "switch_body" then some (.deeper o.switchCase)
  else if parent.kind = "switch_case" ∨ parent.kind = "switch_default" then some (.deeper 1)
  else if containers.contains parent.kind then some (.deeper 1)
  else if parent.kind = "member_expression" ∧
      (place.node.kind = "." ∨ place.node.kind = "optional_chain") then
    some (.deeper 1)
  else if isUnbracedBody parent place then some (.deeper 1)
  else none

theorem expectedIn_eq (opener : Nat) (parent : Node) (place : Cursor) :
    expectedIn d o opener parent place =
      (aimIn d o parent place).map (Aim.width o.scriptSpaces opener) := by
  unfold expectedIn aimIn
  simp only [apply_ite (Option.map (Aim.width o.scriptSpaces opener)), Option.map_some,
    Option.map_none, Aim.width, Indent.nested]

/-- The way a line is measured and the row of the line its parent opens on, if the line is
checked. -/
def lineAim (d : Document) (o : RuleOptions) (root : Node) (lineStart : Nat) (line : Text) :
    Option (Aim × Nat) :=
  if Text.isBlank (line.dropWhile Indent.isBlank) then none
  else
    (tokenAt d root lineStart (lineStart + (Indent.ofLine line).byteLength)).bind fun token =>
      let place := Cursor.widen token.node token.above
      place.above.head?.bind fun s =>
        (aimIn d o s.parent place).map fun aim => (aim, d.text.row s.parent.start)

/-- The expected indentation of a line is what it is measured by. -/
theorem lineWidth_eq (expected : Expected) (lineStart : Nat) (line : Text) :
    lineWidth d o root lines expected lineStart line =
      (lineAim d o root lineStart line).map fun m =>
        m.1.width o.scriptSpaces (indentOf lines expected m.2) := by
  unfold lineWidth lineAim
  split
  · rfl
  · rw [Option.map_bind]
    refine congrArg _ (funext fun token => ?_)
    unfold expectedAt
    simp only [Function.comp_apply]
    cases (Cursor.widen token.node token.above).above with
    | nil => rfl
    | cons s above =>
      rw [List.head?_cons, Option.bind_some, Option.map_map]
      exact expectedIn_eq ..

theorem isWithin_of_aimIn {base : Nat} (hbase : ∀ offset, d.baseIndent offset ≤ base)
    {parent : Node} {place : Cursor} {aim : Aim} (h : aimIn d o parent place = some aim) :
    aim.IsWithin base (max 1 o.switchCase) := by
  have hlevels : (Aim.deeper 1).IsWithin base (max 1 o.switchCase) := Nat.le_max_left ..
  have hcase : (Aim.deeper o.switchCase).IsWithin base (max 1 o.switchCase) := Nat.le_max_right ..
  unfold aimIn at h
  split at h
  · split at h
    · rw [← Option.some.inj h]
      trivial
    · cases h
  split at h
  · rw [← Option.some.inj h]
    exact hbase _
  split at h
  · rwa [← Option.some.inj h]
  iterate 4
    split at h
    · rwa [← Option.some.inj h]
  cases h

/-- No line of a script is more than one level deeper, or as many as `case` clauses are. -/
theorem isWithin_of_lineAim {base : Nat} (hbase : ∀ offset, d.baseIndent offset ≤ base)
    {lineStart row : Nat} {line : Text} {aim : Aim}
    (h : lineAim d o root lineStart line = some (aim, row)) :
    aim.IsWithin base (max 1 o.switchCase) := by
  unfold lineAim at h
  split at h
  · cases h
  obtain ⟨token, -, h⟩ := Option.bind_eq_some_iff.1 h
  obtain ⟨s, -, h⟩ := Option.bind_eq_some_iff.1 h
  obtain ⟨own, hown, heq⟩ := Option.map_eq_some_iff.1 h
  obtain ⟨rfl, -⟩ := Prod.mk.inj heq
  exact isWithin_of_aimIn hbase hown

end

/-! ## A pass over the lines -/

/-- The indentations of the lines from the one with number `row` on, by what they are measured
by, when a level is `spaces` wide. -/
def measure (spaces : Nat) (lines : List Text) (row : Nat) (expected : Expected) :
    List (Option (Aim × Nat)) → List (Option Nat)
  | [] => []
  | none :: rest => none :: measure spaces lines (row + 1) expected rest
  | some (aim, opening) :: rest =>
    let width := aim.width spaces (indentOf lines expected opening)
    some width :: measure spaces lines (row + 1) ((row, width) :: expected) rest

section

variable {d : Document} {o : RuleOptions} {root : Node} {lines : List Text} {row base spaces : Nat}
  {expected : Expected} {aims : List (Option (Aim × Nat))}

theorem widths_eq (places : List (Nat × Text)) :
    widths d o root lines row expected places =
      measure o.scriptSpaces lines row expected
        (places.map fun place => lineAim d o root place.1 place.2) := by
  induction places generalizing row expected with
  | nil => rfl
  | cons place places ih =>
    rw [widths, lineWidth_eq, List.map_cons]
    cases lineAim d o root place.1 place.2 with
    | none => exact congrArg _ ih
    | some m => exact congrArg _ ih

theorem indentOf_le {bound : Nat} (hlines : ∀ line ∈ lines, (Indent.ofLine line).length ≤ bound)
    (hexpected : ∀ p ∈ expected, p.2 ≤ bound) (opening : Nat) :
    indentOf lines expected opening ≤ bound := by
  unfold indentOf
  cases hlookup : expected.lookup opening with
  | some width =>
    obtain ⟨before, after, rfl, -⟩ := List.lookup_eq_some_iff.1 hlookup
    exact hexpected (opening, width) (by simp)
  | none =>
    rw [List.getD_eq_getElem?_getD]
    cases hline : lines[opening]? with
    | none => exact Nat.zero_le _
    | some line => exact hlines line (List.mem_of_getElem? hline)

/-- When no line is indented by more than `bound` to begin with, none should be indented by more
than that and the levels of all lines. -/
theorem measure_le {levels bound : Nat}
    (haims : ∀ m ∈ aims, ∀ p ∈ m, p.1.IsWithin base levels) (hbase : base ≤ bound)
    (hlines : ∀ line ∈ lines, (Indent.ofLine line).length ≤ bound)
    (hexpected : ∀ p ∈ expected, p.2 ≤ bound) :
    ∀ width ∈ measure spaces lines row expected aims, ∀ w ∈ width,
      w ≤ bound + aims.length * (levels * spaces) := by
  induction aims generalizing row expected bound with
  | nil => simp [measure]
  | cons m aims ih =>
    obtain ⟨hhead, htail⟩ := List.forall_mem_cons.1 haims
    have hroom : (m :: aims).length * (levels * spaces) =
        levels * spaces + aims.length * (levels * spaces) := by
      rw [List.length_cons, Nat.succ_mul, Nat.add_comm]
    rw [hroom]
    cases m with
    | none =>
      refine List.forall_mem_cons.2 ⟨fun w hw => (nomatch hw), fun width hwidth w hw => ?_⟩
      have hle := ih htail hbase hlines hexpected width hwidth w hw
      omega
    | some m =>
      obtain ⟨aim, opening⟩ := m
      have hwithin : aim.IsWithin base levels := hhead _ rfl
      have hopener := indentOf_le hlines hexpected opening
      have hwidth : aim.width spaces (indentOf lines expected opening) ≤
          bound + levels * spaces := Aim.width_le hwithin hbase hopener
      -- what is noted may be as many levels deeper as one line is
      have hle : bound ≤ bound + levels * spaces := Nat.le_add_right _ _
      have hnoted : ∀ p ∈ (row, aim.width spaces (indentOf lines expected opening)) :: expected,
          p.2 ≤ bound + levels * spaces :=
        List.forall_mem_cons.2 ⟨hwidth, fun p hp => Nat.le_trans (hexpected p hp) hle⟩
      refine List.forall_mem_cons.2 ⟨fun w hw => ?_, fun width hmem w hw => ?_⟩
      · rw [← Option.some.inj hw]
        omega
      · have hrest := @ih (row + 1) _ _ htail (Nat.le_trans hbase hle)
          (fun line hline => Nat.le_trans (hlines line hline) hle) hnoted width hmem w hw
        omega

end

/-! ## Whole scripts -/

section

variable {d : Document} {o : RuleOptions} {root : Node}

/-- What the lines of a script are measured by. -/
def aims (d : Document) (o : RuleOptions) (root : Node) : List (Option (Aim × Nat)) :=
  d.text.placedLines.map fun place => lineAim d o root place.1 place.2

/-- The expected indentations of a script are those its lines are measured to have. -/
theorem expectedWidths_eq (d : Document) (o : RuleOptions) (root : Node) :
    expectedWidths d o root = measure o.scriptSpaces d.text.lines 0 [] (aims d o root) :=
  widths_eq _

theorem length_aims : (aims d o root).length = d.text.lines.length := by
  rw [aims, List.length_map, Text.placedLines, Text.length_placeLines]

/-- The expected indentations of a script whose lines are not indented by more than `bound` to
begin with. -/
theorem expectedWidths_le {bound : Nat} (hbase : ∀ offset, d.baseIndent offset ≤ bound)
    (hlines : ∀ line ∈ d.text.lines, (Indent.ofLine line).length ≤ bound) :
    ∀ width ∈ expectedWidths d o root, ∀ w ∈ width,
      w ≤ bound + d.text.lines.length * (max 1 o.switchCase * o.scriptSpaces) := by
  have hwithin : ∀ m ∈ aims d o root, ∀ p ∈ m, p.1.IsWithin bound (max 1 o.switchCase) := by
    intro m hm p hp
    obtain ⟨place, -, rfl⟩ := List.mem_map.1 hm
    exact isWithin_of_lineAim hbase hp
  rw [expectedWidths_eq, ← @length_aims d o root]
  exact measure_le hwithin (Nat.le_refl bound) hlines fun p hp => by cases hp

end

end ScriptIndentation
end WebLint
