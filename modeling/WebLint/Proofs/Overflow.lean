import WebLint.Preset.Setting
import WebLint.Proofs.Checker
import WebLint.Proofs.Script.Overflow
import WebLint.Proofs.Style.Indentation
import WebLint.Proofs.Style.Statements
import WebLint.Proofs.Tree

/-!
# Indentation and machine words

Both rules about indentation add levels of nesting to the indentation of what they are nested
in, in machine words.  A preset may make a level as wide as a machine word allows, so that a sum
may not fit.  Nothing refuses such a preset when it is loaded: the run comes to an end when the
sum is formed.

What is proved here:

* `StyleIndentation.asks_iff` — at each spot of a sheet the rule asks for one width;
* `StyleCheck.depth_le_of_mem_spots` — which is no more levels than there are blocks in the sheet;
* `overflow_iff_outgrown` — an analysis comes to an end just when a width that is asked for
  outgrows a machine word, as none does in small documents.
-/

namespace WebLint

open StyleCheck

/-! ## Stylesheets -/

namespace StyleIndentation

variable {d : Document} {o : RuleOptions} {s : Spot}

/-- The width a spot should be indented by. -/
abbrev exactWidth (d : Document) (o : RuleOptions) (s : Spot) : Nat :=
  d.baseIndent s.node.start + s.depth * o.styleSpaces

/-- Whether the rule asks for a width at a spot: it accepts as many spaces and nothing else, and
puts as many in the place of anything else. -/
structure Asks (d : Document) (o : RuleOptions) (s : Spot) (width : Nat) : Prop where
  /-- It accepts so many spaces. -/
  accepts : ofSpot d o s = none ↔ lead d s.node = Indent.spaces width
  /-- It repairs anything else. -/
  repairs : ∀ v, ofSpot d o s = some v → ∃ f, v.fix = some f ∧ f.content = Indent.spaces width

theorem spaces_inj {width width' : Nat} (h : Indent.spaces width = Indent.spaces width') :
    width = width' := by
  simpa [Indent.spaces] using congrArg List.length h

theorem ofSpot_eq_none_iff (hchecked : isChecked d s.node = true) :
    ofSpot d o s = none ↔ lead d s.node = Indent.spaces (exactWidth d o s) := by
  obtain ⟨hblank, hin⟩ := isChecked_iff.1 hchecked
  exact ofNode_eq_none_iff.trans ⟨fun h => h hblank hin, fun h _ _ => h⟩

/-- The rule asks for one width: that of the nesting. -/
theorem asks_iff (hchecked : isChecked d s.node = true) (width : Nat) :
    Asks d o s width ↔ width = exactWidth d o s := by
  have hnone := ofSpot_eq_none_iff (o := o) hchecked
  constructor
  · intro h
    cases hspot : ofSpot d o s with
    | none => exact spaces_inj ((h.accepts.1 hspot).symm.trans (hnone.1 hspot))
    | some v =>
      obtain ⟨-, f, hf, -, hcontent⟩ := ofNode_eq_some hspot
      obtain ⟨g, hg, hcontent'⟩ := h.repairs v hspot
      obtain rfl := Option.some.inj (hf.symm.trans hg)
      exact spaces_inj (hcontent'.symm.trans hcontent)
  · rintro rfl
    refine ⟨hnone, fun v hv => ?_⟩
    obtain ⟨-, f, hf, -, hcontent⟩ := ofNode_eq_some hv
    exact ⟨f, hf, hcontent⟩

end StyleIndentation

namespace StyleCheck

open Node

theorem countP_preorder_le {n c : Node} (p : Node → Bool) (h : c ∈ n.children) :
    c.preorder.countP p ≤ (n.children.flatMap preorder).countP p :=
  (List.sublist_flatten_of_mem (List.mem_map_of_mem h)).countP_le

/-- What a node is about is nested in no more blocks than there are in it. -/
theorem depth_le {n : Node} {depth : Nat} {s : Spot} :
    (s ∈ spotsOf depth n → s.depth ≤ depth + n.preorder.countP isBlock) ∧
      (s ∈ blockSpots depth n → s.depth ≤ depth + n.preorder.countP isBlock) := by
  induction n using Node.induction generalizing depth with
  | step l cs ih =>
    rw [preorder_eq, List.countP_cons]
    constructor
    · intro hs
      unfold spotsOf at hs
      split at hs
      · rcases List.mem_cons.1 hs with rfl | hs
        · exact Nat.le_add_right _ _
        · rw [innerSpots_eq_flatMap] at hs
          obtain ⟨c, hc, hs⟩ := List.mem_flatMap.1 hs
          have hle := (ih c hc).2 hs
          have hcount := countP_preorder_le isBlock hc
          omega
      split at hs
      · rw [List.mem_singleton.1 hs]
        exact Nat.le_add_right_of_le (Nat.sub_le _ _)
      · cases hs
    · intro hs
      unfold blockSpots at hs
      split at hs
      · -- a block counts itself
        rename_i hblock
        have hblock : isBlock (.mk l cs) = true := hblock
        rw [spots_eq_flatMap] at hs
        obtain ⟨c, hc, hs⟩ := List.mem_flatMap.1 hs
        have hle := (ih c hc).1 hs
        have hcount := countP_preorder_le isBlock hc
        rw [if_pos hblock]
        omega
      · cases hs

/-- The spots of a sheet are nested in no more blocks than there are in it. -/
theorem depth_le_of_mem_spots {root : Node} {s : Spot} (hs : s ∈ spots 0 root.children) :
    s.depth ≤ root.preorder.countP isBlock := by
  rw [spots_eq_flatMap] at hs
  obtain ⟨c, hc, hs⟩ := List.mem_flatMap.1 hs
  have hle := depth_le.1 hs
  have hcount := countP_preorder_le isBlock hc
  rw [preorder_eq, List.countP_cons]
  omega

/-- Which widths of a sheet are too wide. -/
theorem overflows_iff {d : Document} {rules : RuleSet} {o : RuleOptions} {root : Node} :
    overflows d rules o root = true ↔ .indentation ∈ rules ∧
      ∃ s ∈ spots 0 root.children, StyleIndentation.isChecked d s.node = true ∧
        UInt64.size ≤ StyleIndentation.exactWidth d o s := by
  simp [overflows, overflowsAt, StyleIndentation.expected, Indent.nested]

end StyleCheck

/-! ## Scripts -/

/-- Which widths of a script are too wide. -/
theorem ScriptCheck.overflows_iff {d : Document} {rules : RuleSet} {o : RuleOptions} {root : Node} :
    overflows d rules o root = true ↔ .indent ∈ rules ∧
      ∃ w, some w ∈ ScriptIndentation.expectedWidths d o root ∧ UInt64.size ≤ w := by
  simp only [overflows, ScriptIndentation.overflows, Bool.and_eq_true, List.contains_iff_mem,
    List.any_eq_true, Option.any_eq_true, Indent.outgrows_iff]
  refine and_congr_right fun _ => ⟨?_, ?_⟩
  · rintro ⟨width, hwidth, w, rfl, hw⟩
    exact ⟨w, hwidth, hw⟩
  · rintro ⟨w, hwidth, hw⟩
    exact ⟨some w, hwidth, w, rfl, hw⟩

/-! ## Both rules -/

/-- The rules themselves never come to an end at a width. -/
theorem StyleCheck.violations_ne_overflow {parser : Parser} {d : Document} {rules : RuleSet}
    {o : RuleOptions} {root : Node} {file : Path} :
    (violations parser d rules o root).value ≠ .error (.overflow file) := by
  rw [violations, Logged.value_bind]
  split
  · exact fun h => by cases h
  · exact fun h => by cases h

/-- The analysis of a sheet comes to an end at a width just when the rules succeed but for the
width. -/
theorem StyleCheck.analyze_eq_overflow_iff {parser : Parser} {d : Document} {rules : RuleSet}
    {o : RuleOptions} {root : Node} :
    (analyze parser d rules o root).value = .error (.overflow d.file) ↔
      (∃ vs, (violations parser d rules o root).value = .ok vs) ∧
        overflows d rules o root = true := by
  have hrules := @violations_ne_overflow parser d rules o root d.file
  rw [value_analyze]
  cases overflows d rules o root with
  | false => simp [hrules]
  | true => cases hvs : (violations parser d rules o root).value with
    | error e =>
      rw [hvs] at hrules
      simpa [Except.bind] using hrules
    | ok vs => simp [Except.bind]

/-- The analysis of a script comes to an end at a width just when one outgrows a machine
word. -/
theorem ScriptCheck.analyze_eq_overflow_iff {d : Document} {rules : RuleSet} {o : RuleOptions}
    {root : Node} : (analyze d rules o root).value = .error (.overflow d.file) ↔
      overflows d rules o root = true := by
  unfold analyze
  cases overflows d rules o root with
  | true => simp
  | false => simp [violations]

/-- **Indentations outgrow machine words when a rule runs.**  The rule about stylesheets asks at
each spot that is checked for the indentation around it and the levels of the nesting, and the
lines of a script are measured in the same way from the lines their parents open on.  The
analysis of a sheet or of a script comes to an end when one of these widths outgrows a machine
word, and for no other reason at a width.  None does when nothing is indented by more than
`bound` to begin with, and there is room in a machine word for the levels of all blocks of a
sheet, or of all lines of a script. -/
theorem overflow_iff_outgrown (parser : Parser) (d : Document) (rules : RuleSet) (o : RuleOptions)
    (root : Node) :
    (∀ s ∈ spots 0 root.children, StyleIndentation.isChecked d s.node = true →
      ∀ width, StyleIndentation.Asks d o s width ↔
        width = d.baseIndent s.node.start + s.depth * o.styleSpaces) ∧
    ((StyleCheck.analyze parser d rules o root).value = .error (.overflow d.file) ↔
      (∃ vs, (StyleCheck.violations parser d rules o root).value = .ok vs) ∧
        .indentation ∈ rules ∧
        ∃ s ∈ spots 0 root.children, StyleIndentation.isChecked d s.node = true ∧
          UInt64.size ≤ d.baseIndent s.node.start + s.depth * o.styleSpaces) ∧
    ScriptIndentation.expectedWidths d o root =
      ScriptIndentation.measure o.scriptSpaces d.text.lines 0 []
        (ScriptIndentation.aims d o root) ∧
    ((ScriptCheck.analyze d rules o root).value = .error (.overflow d.file) ↔
      .indent ∈ rules ∧
        ∃ w, some w ∈ ScriptIndentation.expectedWidths d o root ∧ UInt64.size ≤ w) ∧
    ∀ bound, (∀ offset, d.baseIndent offset ≤ bound) →
      (bound + root.preorder.countP isBlock * o.styleSpaces < UInt64.size →
        StyleCheck.overflows d rules o root = false) ∧
      ((∀ line ∈ d.text.lines, (Indent.ofLine line).length ≤ bound) →
        bound + d.text.lines.length * (max 1 o.switchCase * o.scriptSpaces) < UInt64.size →
          ScriptCheck.overflows d rules o root = false) := by
  refine ⟨fun s hs hchecked => StyleIndentation.asks_iff hchecked, ?_,
    ScriptIndentation.expectedWidths_eq d o root, ?_, fun bound hbase => ⟨fun hroom => ?_,
      fun hlines hroom => ?_⟩⟩
  · rw [← StyleCheck.overflows_iff]
    exact StyleCheck.analyze_eq_overflow_iff
  · rw [← ScriptCheck.overflows_iff]
    exact ScriptCheck.analyze_eq_overflow_iff
  · rw [Bool.eq_false_iff, ne_eq, StyleCheck.overflows_iff]
    rintro ⟨-, s, hs, -, hwide⟩
    have hdepth := Nat.mul_le_mul_right o.styleSpaces (depth_le_of_mem_spots hs)
    have hle := hbase s.node.start
    rw [StyleIndentation.exactWidth] at hwide
    omega
  · rw [Bool.eq_false_iff, ne_eq, ScriptCheck.overflows_iff]
    rintro ⟨-, w, hw, hwide⟩
    have hle := ScriptIndentation.expectedWidths_le hbase hlines _ hw w rfl
    omega

/-! ### Two presets -/

/-- A script with a `case` clause that is not indented. -/
def switchText : Text := "switch (a) \x7b\ncase 1:\n\x7d".toList

/-- The tree of this script. -/
def switchScript : Node :=
  let value := .construct "parenthesized_expression" 7 10
    [.token "(" 7, .construct "identifier" 8 9, .token ")" 9]
  let clause := .construct "switch_case" 13 20
    [.token "case" 13, .construct "number" 18 19, .token ":" 19]
  .construct "program" 0 22
    [.construct "switch_statement" 0 22
      [.token "switch" 0, value,
       .construct "switch_body" 11 22 [.token "\x7b" 11, clause, .token "\x7d" 21]]]

/-- The file this script is. -/
def switchDocument : Document := ⟨⟨"a.js"⟩, switchText, .script, none⟩

/-- The parser that knows this script. -/
def switchTrees : ParseTable := [⟨.javascript, switchText, none, ⟨false, switchScript⟩⟩]

/-- With levels of two spaces nothing is too wide, and the clause should be indented by two. -/
theorem fits_switchScript :
    (∀ offset, switchDocument.baseIndent offset ≤ 0) ∧
      (∀ line ∈ switchDocument.text.lines, (Indent.ofLine line).length ≤ 0) ∧
      ScriptCheck.overflows switchDocument [.indent] { scriptSpaces := 2, switchCase := 1 }
        switchScript = false ∧
      ScriptIndentation.expectedWidths switchDocument { scriptSpaces := 2, switchCase := 1 }
        switchScript = [some 0, some 2, some 0] := by
  have hlines : ∀ line ∈ switchDocument.text.lines, (Indent.ofLine line).length ≤ 0 := by decide
  obtain ⟨-, -, -, -, hfits⟩ := overflow_iff_outgrown switchTrees.parser switchDocument [.indent]
    { scriptSpaces := 2, switchCase := 1 } switchScript
  exact ⟨fun _ => Nat.le_refl 0, hlines,
    (hfits 0 fun _ => Nat.le_refl 0).2 hlines (by decide +kernel), by decide +kernel⟩

/-- A preset in which `case` clauses are four levels deep, and four levels outgrow a machine
word. -/
def hugeSetting : Setting :=
  .table [("script", .table [("indent", .table
    [("level", .text "error"), ("spaces", .number (2 ^ 62)), ("switch-case", .number 4)])])]

/-- This preset is accepted, but the clause should be indented by 2^64 spaces, and checking the
script comes to an end there. -/
theorem overflow_hugeSetting :
    ∃ p, Preset.ofSetting hugeSetting = .ok p ∧
      ScriptIndentation.expectedWidths switchDocument p.options switchScript =
        [some 0, some (2 ^ 64), some 0] ∧
      (Checker.script.checkText switchTrees.parser (.ofPaths p false [⟨"a.js"⟩]) ⟨"a.js"⟩
        switchText).value = .error (.overflow ⟨"a.js"⟩) := by
  have haccepted : (Preset.ofSetting hugeSetting).map
      (fun p => (p.options, p.enabledRules)) =
        .ok ({ scriptSpaces := 2 ^ 62, switchCase := 4 }, [.indent]) := by decide +kernel
  cases hp : Preset.ofSetting hugeSetting with
  | error e => rw [hp] at haccepted; cases haccepted
  | ok p =>
    rw [hp] at haccepted
    obtain ⟨hoptions, hrules⟩ := Prod.mk.inj (Except.ok.inj haccepted)
    have hwidths : ScriptIndentation.expectedWidths switchDocument p.options switchScript =
        [some 0, some (2 ^ 64), some 0] := by
      rw [hoptions]
      decide +kernel
    refine ⟨p, rfl, hwidths, Checker.checkText_of_error rfl rfl ?_⟩
    have hrules : (Plan.ofPaths p false [⟨"a.js"⟩]).rules.forLanguage .script = [.indent] := by
      rw [Plan.ofPaths, hrules]
      rfl
    have hwide : ScriptCheck.overflows switchDocument [.indent] p.options switchScript = true :=
      ScriptCheck.overflows_iff.2 ⟨List.mem_singleton_self _, 2 ^ 64,
        by rw [hwidths]; simp, Nat.le_refl _⟩
    show (ScriptCheck.analyze switchDocument _ p.options switchScript).value = _
    rw [show (Plan.ofPaths p false [⟨"a.js"⟩]).rules.forLanguage Checker.script.language = _
      from hrules, ScriptCheck.analyze, hwide]
    rfl

end WebLint
