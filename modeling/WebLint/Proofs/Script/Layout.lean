import WebLint.Proofs.Checker.Writes
import WebLint.Proofs.Fixing.Permutation
import WebLint.Proofs.Script.Widths
import WebLint.Proofs.Tree
import WebLint.Proofs.Tree.Places

/-!
# Repairing a script changes its layout only

Two rules repair scripts, one line by line and the other statement by statement.
Neither knows of the other, but their fixes never meet: the lines have one fix
each, in front of anything the second rule could delete, and a statement ends with
its own semicolon.  So one round applies all of them, and each line stays what it
was but for its layout.

What is proved here:

* `exists_fix_violationsAt` — at a node, the only fix deletes the semicolon of a
  statement;
* `Semicolon.pairwise_namedPlaces` — different statements end with semicolons in
  different places;
* `pairwise_clear_violations` — no two fixes of a script meet;
* `isRelaid_checkText` — what the fixes of a script make of it.
-/

namespace WebLint

open Fixing

/-! ## Semicolons -/

namespace Semicolon

variable {t : Text} {c d s : Cursor} {root : Node}

/-- The semicolon of a statement is the last part of it. -/
theorem ofStatement?_eq_some (h : ofStatement? t c = some s) :
    c.node.children.getLast? = some s.node ∧ s.node.kind = ";" ∧ s.node.text t = [';'] := by
  obtain ⟨hlast, htext⟩ := Option.filter_eq_some_iff.1 h
  simp only [Bool.and_eq_true, beq_iff_eq] at htext
  rw [Cursor.getLast?_children] at hlast
  obtain ⟨n, hn, rfl⟩ := Option.map_eq_some_iff.1 hlast
  exact ⟨hn, htext⟩

/-- A semicolon covers one byte. -/
theorem stop_of_text {n : Node} (hplaced : root.IsPlaced t) (hn : n ∈ root.preorder)
    (htext : n.text t = [';']) :
    t.between n.start n.stop = [';'] ∧ n.stop = n.start + 1 := by
  obtain ⟨hstart, hstop⟩ := hplaced.boundary n hn
  have hle := hplaced.ordered n hn
  have hpiece : t.between n.start n.stop = [';'] := by
    rw [← Text.slice_eq_between t hstart hle]
    exact htext
  have hlength := Text.byteLength_between hle hstart hstop
  rw [hpiece, Fix.byteLength_semicolon, Text.byteLength_nil] at hlength
  exact ⟨hpiece, by omega⟩

/-- Deleting the semicolon of a statement deletes a semicolon. -/
theorem drops (hplaced : root.IsPlaced t) (hc : c.node ∈ root.preorder)
    (h : ofStatement? t c = some s) : (Fix.delete s.node.span).Drops t := by
  obtain ⟨hlast, -, htext⟩ := ofStatement?_eq_some h
  have hs : s.node ∈ root.preorder :=
    Node.mem_preorder_trans hc (Node.mem_preorder_of_child (List.mem_of_getLast? hlast)
      (Node.self_mem_preorder _))
  obtain ⟨hpiece, hstop⟩ := stop_of_text hplaced hs htext
  refine ⟨⟨t.takeBytes s.node.start, t.dropBytes s.node.stop, ?_, ?_⟩, hstop, rfl⟩
  · calc t = t.takeBytes s.node.start ++ t.dropBytes s.node.start :=
          (Text.takeBytes_append_dropBytes t _).symm
      _ = _ := by
          rw [← Text.between_append_dropBytes t (hplaced.ordered _ hs), hpiece]
          rfl
  · exact Text.byteLength_takeBytes_of_isBoundary t _ (hplaced.boundary _ hs).1

/-- Whether the semicolons of two statements, if they have one, are apart. -/
def Apart (t : Text) (c d : Cursor) : Prop :=
  ∀ r ∈ ofStatement? t c, ∀ s ∈ ofStatement? t d,
    (Fix.delete r.node.span).Apart (.delete s.node.span)

/-- Whether semicolons are tokens, which have no parts that a walk goes through. -/
def AreTokens (root : Node) : Prop :=
  ∀ n ∈ root.preorder, n.kind = ";" → n.isNamed = true → n.children = []

instance (root : Node) : Decidable (AreTokens root) :=
  inferInstanceAs (Decidable (∀ n ∈ root.preorder, _))

/-- Different statements end with semicolons in different places. -/
theorem pairwise_namedPlaces (hplaced : root.IsPlaced t) (htokens : AreTokens root)
    (above : List Step) :
    (Cursor.namedPlaces above root).Pairwise (Apart t) := by
  -- the semicolon of a statement lies in the statement
  have hbelow : ∀ {c s : Cursor} {n : Node} {above : List Step}, c ∈ Cursor.namedPlaces above n →
      ofStatement? t c = some s → s.node ∈ n.preorder := fun hc hs =>
    Node.mem_preorder_trans (Cursor.node_mem_preorder hc)
      (Node.mem_preorder_of_child (List.mem_of_getLast? (ofStatement?_eq_some hs).1)
        (Node.self_mem_preorder _))
  induction root using Node.induction generalizing above with
  | step l cs ih =>
    rw [Cursor.namedPlaces, List.pairwise_cons]
    constructor
    · -- the own semicolon of a node comes behind those of the statements in it
      intro d hd r hr s hs
      obtain ⟨n, hn, hnamed, above', hd⟩ := Cursor.mem_namedPlacesBelow hd
      obtain ⟨hlast, hkind, -⟩ := ofStatement?_eq_some hr
      have hr : r.node ∈ cs := List.mem_of_getLast? hlast
      obtain ⟨init, hcs⟩ := List.getLast?_eq_some_iff.1 hlast
      change cs = init ++ [r.node] at hcs
      have hsiblings := hplaced.siblings _ (Node.self_mem_preorder _)
      change cs.Pairwise _ at hsiblings
      rw [hcs, List.pairwise_append] at hsiblings
      rw [hcs, List.mem_append, List.mem_singleton] at hn
      rcases hn with hn | rfl
      · have hnr : n.stop ≤ r.node.start := hsiblings.2.2 n hn r.node (List.mem_singleton_self _)
        have hncs : n ∈ cs := by
          rw [hcs]
          exact List.mem_append_left _ hn
        exact Or.inr (hplaced.stop_le_start hncs hr hnr (hbelow hd hs) (Node.self_mem_preorder _))
      · -- no statement is part of a semicolon
        have hnone := htokens _ (Node.mem_preorder_of_child hr (Node.self_mem_preorder _)) hkind
          hnamed
        have hd := Cursor.node_mem_preorder hd
        rw [Node.mem_preorder, hnone] at hd
        obtain hd | ⟨m, hm, -⟩ := hd
        · have hlast := (ofStatement?_eq_some hs).1
          rw [hd, hnone] at hlast
          cases hlast
        · cases hm
    · refine Cursor.pairwise_namedPlacesBelow (fun n hn above' => ih n hn (hplaced.child hn)
        (fun m hm => htokens m (Node.mem_preorder_of_child hn hm)) above') ?_
      refine (hplaced.siblings _ (Node.self_mem_preorder _)).imp_of_mem ?_
      intro a b ha hb hab above₁ above₂ c hc d hd r hr s hs
      exact Or.inl (hplaced.stop_le_start ha hb hab (hbelow hc hr) (hbelow hd hs))

end Semicolon

/-! ## The fixes of a script -/

namespace ScriptCheck

variable {d : Document} {rules : RuleSet} {o : RuleOptions} {root : Node}

theorem filterMap_fix_foundBy {rule : Rule} {found : Option Violation}
    (h : ∀ v, found = some v → v.fix = none) :
    (foundBy rules rule found).filterMap (·.fix) = [] := by
  unfold foundBy
  split
  · cases found with
    | none => rfl
    | some v => simp [h v rfl]
  · rfl

/-- At a node, the only fix deletes the semicolon of a statement. -/
theorem exists_fix_violationsAt (t : Text) (rules : RuleSet) (c : Cursor) :
    ∃ found : Option Fix, (violationsAt t rules c).filterMap (·.fix) = found.toList ∧
      ∀ f ∈ found, ∃ s, Semicolon.ofStatement? t c = some s ∧ f = .delete s.node.span := by
  have hquiet : ∀ {vs : List Violation}, vs.filterMap (·.fix) = [] →
      ∃ found : Option Fix, vs.filterMap (·.fix) = found.toList ∧
        ∀ f ∈ found, ∃ s, Semicolon.ofStatement? t c = some s ∧ f = .delete s.node.span :=
    fun h => ⟨none, h, fun f hf => by cases hf⟩
  unfold violationsAt
  simp only
  split
  · refine hquiet ?_
    rw [List.filterMap_append, filterMap_fix_foundBy fun v h => (Comparison.equality_eq_some h).2,
      filterMap_fix_foundBy fun v h => (Comparison.toNaN_eq_some h).2]
    rfl
  split
  · exact hquiet (filterMap_fix_foundBy fun v h => (Constructs.evalCall_eq_some h).2)
  split
  · exact hquiet (filterMap_fix_foundBy fun v h => (Constructs.functionKeyword_eq_some h).2)
  split
  · exact hquiet (filterMap_fix_foundBy fun v h => (Constructs.emptyBlock_eq_some h).2)
  split
  · refine hquiet (filterMap_fix_foundBy fun v hv => ?_)
    rw [← Option.some.inj hv]
    rfl
  split
  · have hdebugger : (if c.node.kind = "debugger_statement" then
        foundBy rules .noDebugger (some (Constructs.debugger c)) else []).filterMap (·.fix) =
          [] := by
      split
      · refine filterMap_fix_foundBy fun v hv => ?_
        rw [← Option.some.inj hv]
        rfl
      · rfl
    rw [statementViolations, List.filterMap_append, hdebugger, List.nil_append, foundBy]
    split
    · cases hfound : Semicolon.ofStatement t c with
      | none => exact hquiet rfl
      | some v =>
        obtain ⟨-, s, hs, -, -, hfix⟩ := Semicolon.ofStatement_eq_some hfound
        refine ⟨v.fix, by simp [hfix], fun f hf => ⟨s, hs, ?_⟩⟩
        exact Option.some.inj (hf.symm.trans hfix)
    · exact hquiet rfl
  · exact hquiet rfl

/-- The fixes at the nodes of a script delete semicolons, and do not meet. -/
theorem pairwise_clear_namedPlaces {t : Text} (rules : RuleSet) (hplaced : root.IsPlaced t)
    (htokens : Semicolon.AreTokens root) :
    (∀ f ∈ ((Cursor.namedPlaces [] root).flatMap (violationsAt t rules)).filterMap (·.fix),
      f.Drops t) ∧
    (((Cursor.namedPlaces [] root).flatMap (violationsAt t rules)).filterMap (·.fix)).Pairwise
      Fix.Apart := by
  rw [List.filterMap_flatMap]
  constructor
  · intro f hf
    obtain ⟨c, hc, hf⟩ := List.mem_flatMap.1 hf
    obtain ⟨found, hfound, hsemicolon⟩ := exists_fix_violationsAt t rules c
    rw [hfound, Option.mem_toList] at hf
    obtain ⟨s, hs, rfl⟩ := hsemicolon f hf
    exact Semicolon.drops hplaced (Cursor.node_mem_preorder hc) hs
  · rw [List.pairwise_flatMap]
    constructor
    · intro c _
      obtain ⟨found, hfound, -⟩ := exists_fix_violationsAt t rules c
      rw [hfound]
      cases found with
      | none => exact .nil
      | some f => exact List.pairwise_singleton _ f
    · refine (Semicolon.pairwise_namedPlaces hplaced htokens []).imp fun {c d} hcd f hf g hg => ?_
      obtain ⟨found, hfound, hsemicolon⟩ := exists_fix_violationsAt t rules c
      obtain ⟨found', hfound', hsemicolon'⟩ := exists_fix_violationsAt t rules d
      rw [hfound, Option.mem_toList] at hf
      rw [hfound', Option.mem_toList] at hg
      obtain ⟨r, hr, rfl⟩ := hsemicolon f hf
      obtain ⟨s, hs, rfl⟩ := hsemicolon' g hg
      exact hcd r hr s hs

/-- **No two fixes of a script meet.**  Each indents a line or deletes a semicolon. -/
theorem pairwise_clear_violations {vs : List Violation} (hplaced : root.IsPlaced d.text)
    (htokens : Semicolon.AreTokens root) (h : (violations d rules o root).value = .ok vs) :
    (∀ f ∈ vs.filterMap (·.fix), f.Indents d.text ∨ f.Drops d.text) ∧
      (vs.filterMap (·.fix)).Pairwise (Fix.Clear d.text) := by
  obtain rfl := Except.ok.inj h
  obtain ⟨hdrops, hdropped⟩ := pairwise_clear_namedPlaces rules hplaced htokens
  have hlines : ∃ ws, (if rules.contains .indent then ScriptIndentation.violations d o root
      else []).filterMap (·.fix) = ScriptIndentation.lineFixes d.text.placedLines ws := by
    split
    · exact ⟨_, ScriptIndentation.filterMap_fix_violations⟩
    · exact ⟨[], by simp [ScriptIndentation.lineFixes]⟩
  obtain ⟨ws, hws⟩ := hlines
  simp only [List.filterMap_append, hws]
  have hindents : ∀ f ∈ ScriptIndentation.lineFixes d.text.placedLines ws, f.Indents d.text :=
    fun f hf => ScriptIndentation.indents_of_mem_lineFixes hf
  constructor
  · intro f hf
    rcases List.mem_append.1 hf with hf | hf
    · exact Or.inl (hindents f hf)
    · exact Or.inr (hdrops f hf)
  · rw [List.pairwise_append]
    refine ⟨?_, ?_, ?_⟩
    · have hordered := ScriptIndentation.pairwise_lineFixes ws
        (Text.pairwise_placeLines 0 d.text.lines)
      refine hordered.imp_of_mem fun {f g} hf hg hfg => ⟨Or.inl (Nat.le_of_lt hfg), fun _ _ => ?_⟩
      have hle := (hindents f hf).1.le
      omega
    · exact hdropped.imp_of_mem fun {f g} hf _ hfg =>
        ⟨hfg, fun hindents _ => absurd hindents (hdrops f hf).not_indents⟩
    · exact fun f hf g hg => ⟨(hindents f hf).apart_drops (hdrops g hg),
        fun _ hindents => absurd hindents (hdrops g hg).not_indents⟩

end ScriptCheck

/-! ## Repairing a script -/

namespace Fixing

open Checker

/-- A script is checked successfully unless a width that is asked for outgrows a machine
word. -/
theorem exists_or_overflows {parser : Parser} {plan : Plan} {file : Path} {text : Text}
    {root : Node} (hparse : (script.document parser file text).parse parser = .ok root) :
    (∃ found, (script.checkText parser plan file text).value = .ok found) ∨
      (script.checkText parser plan file text).value = .error (.overflow file) ∧
        ScriptCheck.overflows (script.document parser file text) (plan.rules.forLanguage .script)
          plan.preset.options root = true := by
  cases hempty : (script.document parser file text).isEmpty with
  | true => exact Or.inl ⟨[], checkText_of_isEmpty hempty⟩
  | false =>
    have hvs : script.analysis parser plan (script.document parser file text) root =
        (ScriptCheck.analyze (script.document parser file text)
          (plan.rules.forLanguage .script) plan.preset.options root).value := rfl
    rw [ScriptCheck.analyze] at hvs
    cases hwide : ScriptCheck.overflows (script.document parser file text)
        (plan.rules.forLanguage .script) plan.preset.options root with
    | true =>
      rw [hwide] at hvs
      exact Or.inr ⟨checkText_of_error hempty hparse hvs, rfl⟩
    | false =>
      rw [hwide] at hvs
      exact Or.inl ⟨_, checkText_of_analysis hempty hparse hvs⟩

/-- **Repairing a script changes its layout only.**  Whatever the text of a script,
alone in its file or in the regions of markup, and whatever tree it has, if only nodes
are placed as a parser places them and semicolons are tokens: the fixes of what is found
do not overlap, so none is skipped and one round, which writes the file at most once,
applies them all: the new text is the old one with their contents in their ranges.  It has the
lines of the old one, one for one, each in a new layout.  The check of such a script succeeds,
unless a width it asks for outgrows a machine word. -/
theorem isRelaid_checkText (parser : Parser) (plan : Plan) (file : Path) (text : Text)
    (root : Node) (hparse : (script.document parser file text).parse parser = .ok root)
    (hplaced : root.IsPlaced text) (htokens : Semicolon.AreTokens root) :
    ((∃ found, (script.checkText parser plan file text).value = .ok found) ∨
      (script.checkText parser plan file text).value = .error (.overflow file) ∧
        ScriptCheck.overflows (script.document parser file text) (plan.rules.forLanguage .script)
          plan.preset.options root = true) ∧
    ∀ found, (script.checkText parser plan file text).value = .ok found →
      (fixesOf found).Pairwise Fix.Apart ∧
      (apply (fixesOf found) text).skipped = false ∧
      (∀ fs : Files, fs.read file = .ok text →
        writes file (script.lintFix parser plan file fs).events ≤ 1 ∧
          (script.lintFix parser plan file fs).value.files =
            saved file text (apply (fixesOf found) text).text fs) ∧
      (apply (fixesOf found) text).text =
        refill text 0 ((sort (fixesOf found)).map fun f => (f.span, f.content)) ∧
      List.Forall₂ Text.IsRelaid text.lines (apply (fixesOf found) text).text.lines := by
  refine ⟨exists_or_overflows hparse, fun found hfound => ?_⟩
  obtain ⟨hlayout, hclear⟩ : (∀ f ∈ fixesOf found, f.Indents text ∨ f.Drops text) ∧
      (fixesOf found).Pairwise (Fix.Clear text) := by
    rcases checkText_eq_ok hfound with ⟨-, rfl⟩ | ⟨other, vs, -, hother, hvs, rfl⟩
    · exact ⟨fun f hf => absurd hf List.not_mem_nil, .nil⟩
    · rw [hparse] at hother
      obtain rfl := Except.ok.inj hother
      obtain ⟨hlayout, hclear⟩ := ScriptCheck.pairwise_clear_violations
        (d := script.document parser file text) hplaced htokens
        (ScriptCheck.analyze_eq_ok_iff.1 hvs).2
      refine ⟨fun f hf => ?_, pairwise_fixesOf Fix.Clear.symm hclear⟩
      obtain ⟨x, hx, hf⟩ := List.mem_filterMap.1 hf
      obtain ⟨v, hv, -, hfix⟩ := exists_violation_of_mem hx
      exact hlayout f (List.mem_filterMap.2 ⟨v, hv, hfix f hf⟩)
  have hapart : (fixesOf found).Pairwise Fix.Apart := hclear.imp And.left
  have hvalid : ∀ f ∈ fixesOf found, isValid text f = true := fun f hf =>
    (hlayout f hf).elim Fix.Indents.isValid Fix.Drops.isValid
  obtain ⟨hskipped, hround⟩ := lintFix_of_apart (mem_builtin.2 (Or.inr rfl)) hfound hvalid hapart
  refine ⟨hapart, hskipped, hround, ?_, forall₂_isRelaid_apply hlayout hclear⟩
  rw [apply_of_apart hvalid hapart]
  rfl

/-! ### Two statements -/

/-- Two statements, each with a redundant semicolon, the second one indented. -/
def looseText : Text := "a;\n  b;".toList

/-- The tree of these statements. -/
def looseTree : Node :=
  .construct "program" 0 7
    [.construct "expression_statement" 0 2 [.construct "identifier" 0 1, .token ";" 1],
     .construct "expression_statement" 5 7 [.construct "identifier" 5 6, .token ";" 6]]

/-- The parser that knows this tree. -/
def looseTrees : ParseTable := [⟨.javascript, looseText, none, ⟨false, looseTree⟩⟩]

/-- The plan to check the layout of scripts. -/
def layoutPlan : Plan :=
  let preset := Preset.setLevel (Preset.setLevel {} .indent .error) .semi .error
  ⟨[], [⟨"a.js"⟩], preset.enabledRules, preset, true⟩

/-- Both statements are repaired at once. -/
theorem isRelaid_looseText :
    (script.document looseTrees.parser ⟨"a.js"⟩ looseText).parse looseTrees.parser =
        .ok looseTree ∧
      looseTree.IsPlaced looseText ∧ Semicolon.AreTokens looseTree ∧
      ∃ found, (script.checkText looseTrees.parser layoutPlan ⟨"a.js"⟩ looseText).value =
          .ok found ∧
        (fixesOf found).Perm [⟨3, 5, []⟩, ⟨1, 2, []⟩, ⟨6, 7, []⟩] ∧
        (apply (fixesOf found) looseText).skipped = false ∧
        (apply (fixesOf found) looseText).text = "a\nb".toList ∧
        List.Forall₂ Text.IsRelaid looseText.lines
          (apply (fixesOf found) looseText).text.lines := by
  have hparse : (script.document looseTrees.parser ⟨"a.js"⟩ looseText).parse looseTrees.parser =
      .ok looseTree := rfl
  have hplaced : looseTree.IsPlaced looseText := by decide
  have htokens : Semicolon.AreTokens looseTree := by decide
  have hfixes : ((script.analysis looseTrees.parser layoutPlan
      (script.document looseTrees.parser ⟨"a.js"⟩ looseText) looseTree).toOption.map fun vs =>
        fixesOf (vs.map (complete (script.document looseTrees.parser ⟨"a.js"⟩ looseText)
          layoutPlan.preset))) = some [⟨3, 5, []⟩, ⟨1, 2, []⟩, ⟨6, 7, []⟩] := by
    decide +kernel
  obtain ⟨vs, hvs, hfixes⟩ := Option.map_eq_some_iff.1 hfixes
  have hfound := checkText_of_analysis rfl hparse (eq_ok_of_toOption hvs)
  obtain ⟨-, hskipped, -, htext, hlines⟩ := (isRelaid_checkText _ layoutPlan _ _ _
    hparse hplaced htokens).2 _ hfound
  have hperm : (fixesOf (Diagnostic.sort (vs.map (complete (script.document looseTrees.parser
      ⟨"a.js"⟩ looseText) layoutPlan.preset)))).Perm [⟨3, 5, []⟩, ⟨1, 2, []⟩, ⟨6, 7, []⟩] := by
    rw [← hfixes]
    exact (List.mergeSort_perm _ _).filterMap _
  refine ⟨hparse, hplaced, htokens, _, hfound, hperm, hskipped, htext.trans ?_, hlines⟩
  -- the fixes in the order of their ranges
  have horder : [⟨1, 2, []⟩, ⟨3, 5, []⟩, ⟨6, 7, []⟩].Perm
      [⟨3, 5, []⟩, ⟨1, 2, []⟩, (⟨6, 7, []⟩ : Fix)] := .swap _ _ _
  rw [← sort_congr (horder.trans hperm.symm) (by decide), sort_eq_self (by decide)]
  decide

end Fixing
end WebLint
