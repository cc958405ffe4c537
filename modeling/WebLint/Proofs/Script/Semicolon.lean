import WebLint.Proofs.Checker.Independence
import WebLint.Proofs.Script.Layout

/-!
# Which semicolons are reported

A semicolon is due to be reported when it ends its line, or stands in front of a closing
brace, and the next line would not continue the statement.  In the head of a `for` loop
semicolons are part of the syntax; but the rule takes every statement directly in a loop for
a part of its head, and so passes over bodies without braces as well.

What is proved here:

* `violationsAt_alone` — alone, the rule looks at statements that may end with a semicolon;
* `isRedundant_iff` — a semicolon can be left out, told by the rows and by the leaves of the
  tree;
* `IsScript.span_ne` — what is found at other statements is found in other places;
* `reports_violations` — a statement is reported once when its semicolon is due and it does
  not stand directly in a loop, and not at all otherwise;
* `reports_loopBody` — the body of a loop is not reported.
-/

namespace WebLint

namespace Text

/-- Rows are counted on. -/
theorem row_eq_add (t : Text) {start stop : Nat} (h : start ≤ stop) :
    t.row stop = t.row start + (t.between start stop).count '\n' := by
  rw [row, row, ← takeBytes_append_between t h, List.count_append]

end Text

namespace Semicolon

/-! ## Scripts -/

/-- Whether the tree of a script is as the grammar gives them. -/
structure IsScript (t : Text) (root : Node) : Prop where
  /-- The nodes stand in the text. -/
  placed : root.IsPlaced t
  /-- Tokens that are not named have no parts. -/
  tokens : ∀ n ∈ root.preorder, n.isNamed = false → n.children = []
  /-- Statements are constructs of the grammar. -/
  statements : ∀ n ∈ root.preorder, terminated.contains n.kind = true → n.isNamed = true
  /-- Semicolons are tokens. -/
  semicolons : ∀ n ∈ root.preorder, n.kind = ";" → n.isNamed = false
  /-- There is something in front of the semicolon of a statement. -/
  solid : ∀ n ∈ root.preorder, terminated.contains n.kind = true →
    ∀ s ∈ n.children.getLast?, s.kind = ";" → n.start < s.start

instance (t : Text) (root : Node) : Decidable (IsScript t root) :=
  decidable_of_iff
    (root.IsPlaced t ∧ (∀ n ∈ root.preorder, n.isNamed = false → n.children.isEmpty = true) ∧
      (∀ n ∈ root.preorder, terminated.contains n.kind = true → n.isNamed = true) ∧
      (∀ n ∈ root.preorder, n.kind = ";" → n.isNamed = false) ∧
      ∀ n ∈ root.preorder, terminated.contains n.kind = true →
        ∀ s ∈ n.children.getLast?, s.kind = ";" → n.start < s.start)
    ⟨fun ⟨hp, ht, hs, hc, hl⟩ =>
      ⟨hp, fun n hn hnamed => List.isEmpty_iff.1 (ht n hn hnamed), hs, hc, hl⟩,
    fun ⟨hp, ht, hs, hc, hl⟩ =>
      ⟨hp, fun n hn hnamed => List.isEmpty_iff.2 (ht n hn hnamed), hs, hc, hl⟩⟩

variable {t : Text} {root : Node} {c e : Cursor}

/-- Whether a statement stands directly in a `for` loop. -/
def IsInLoop (c : Cursor) : Prop :=
  c.parentKind? = some "for_statement" ∨ c.parentKind? = some "for_in_statement"

instance (c : Cursor) : Decidable (IsInLoop c) := inferInstanceAs (Decidable (_ ∨ _))

/-- Whether a statement stands in the head of a `for` loop. -/
def IsInHead (c : Cursor) : Prop :=
  c.parentKind? = some "for_statement" ∧
    (c.node.field = some "initializer" ∨ c.node.field = some "condition")

instance (c : Cursor) : Decidable (IsInHead c) := inferInstanceAs (Decidable (_ ∧ _))

/-- Whether the semicolon of a statement is due to be reported: the statement ends with one,
and the next token of the script, if there is one, is a closing brace, or stands in a later
row and does not continue the statement. -/
def IsDue (t : Text) (root : Node) (c : Cursor) : Prop :=
  ∃ s ∈ c.node.children.getLast?, (s.kind = ";" ∧ s.text t = [';']) ∧
    ∀ next ∈ root.tokenFrom? s.stop, next.kind = "\x7d" ∨
      (t.row s.start < t.row next.start ∧
        ∀ first ∈ (next.text t).head?, first ∉ ['[', '(', '\x60', '+', '-', '/'])

theorem continues_eq_false_iff {next : Node} : continues t next = false ↔
    ∀ first ∈ (next.text t).head?, first ∉ ['[', '(', '\x60', '+', '-', '/'] := by
  rw [continues]
  cases next.text t with
  | nil => simp
  | cons first rest => simp [continuing]

instance (t : Text) (root : Node) (c : Cursor) : Decidable (IsDue t root c) :=
  decidable_of_iff
    (∃ s ∈ c.node.children.getLast?, (s.kind = ";" ∧ s.text t = [';']) ∧
      ∀ next ∈ root.tokenFrom? s.stop, next.kind = "\x7d" ∨
        (t.row s.start < t.row next.start ∧ continues t next = false))
    (by simp only [continues_eq_false_iff, IsDue])

/-- How often a statement is reported for its last part. -/
def reports (vs : List Violation) (c : Cursor) : Nat :=
  vs.countP fun v =>
    (c.node.children.getLast?.any fun s => v.span == s.span) && v.rule == .semi

/-! ## Semicolons of statements -/

theorem isLoopHead_iff : isLoopHead c = true ↔ IsInLoop c := by
  simp [isLoopHead, IsInLoop]

/-- A statement that ends with a semicolon. -/
theorem ofStatement?_eq {s : Node} (hlast : c.node.children.getLast? = some s)
    (hkind : s.kind = ";") (htext : s.text t = [';']) :
    ofStatement? t c = some ⟨s, ⟨c.node, c.node.children.length - 1⟩ :: c.above⟩ := by
  rw [ofStatement?, Cursor.getLast?_children, hlast, Option.map_some,
    Option.filter_some, if_pos (by simp [hkind, htext])]

/-- A semicolon can be left out when no token follows, or a closing brace does, or a later
row that does not continue the statement. -/
theorem isRedundant_iff {s : Cursor} (hplaced : root.IsPlaced t) (hs : s.IsIn root)
    (htext : s.node.text t = [';']) : isRedundant t s = true ↔
      ∀ next ∈ root.tokenFrom? s.node.stop, next.kind = "\x7d" ∨
        (t.row s.node.start < t.row next.start ∧
          ∀ first ∈ (next.text t).head?, first ∉ ['[', '(', '\x60', '+', '-', '/']) := by
  have hrow : t.row s.node.stop = t.row s.node.start := by
    rw [Text.row_eq_add t (hplaced.ordered _ hs.node_mem),
      (stop_of_text hplaced hs.node_mem htext).1]
    rfl
  rw [isRedundant, hs.nextToken?_eq hplaced]
  cases hnext : root.tokenFrom? s.node.stop with
  | none => simp
  | some next =>
    have hle : s.node.stop ≤ next.start := by
      have hfound := List.find?_some hnext
      simp only [Bool.and_eq_true, decide_eq_true_eq] at hfound
      exact hfound.2
    have hlater := Text.row_eq_add t hle
    simp only [Option.mem_def, Option.some.injEq, forall_eq']
    by_cases hbrace : next.kind = "\x7d"
    · simp [hbrace]
    · by_cases hsame : t.row next.start = t.row s.node.stop
      · have hnot : ¬ t.row s.node.start < t.row s.node.stop := by omega
        simp [hbrace, hsame, hnot]
      · have hlt : t.row s.node.start < t.row next.start := by omega
        simp only [hbrace, hsame, if_false, Bool.not_eq_true', hlt, true_and, false_or]
        exact continues_eq_false_iff

/-- What is found at a statement is its last part, if it is due and the statement does not
stand directly in a loop. -/
theorem ofStatement_isSome_iff (hplaced : root.IsPlaced t) (hc : c.IsIn root) :
    (ofStatement t c).isSome = true ↔ IsDue t root c ∧ ¬ IsInLoop c := by
  rw [← isLoopHead_iff]
  constructor
  · intro h
    obtain ⟨v, hv⟩ := Option.isSome_iff_exists.1 h
    unfold ofStatement at hv
    split at hv
    · cases hv
    · rename_i hloop
      obtain ⟨s, hs, hv⟩ := Option.bind_eq_some_iff.1 hv
      split at hv
      · rename_i hredundant
        obtain ⟨hlast, hkind, htext⟩ := ofStatement?_eq_some hs
        rw [ofStatement?_eq hlast hkind htext] at hs
        have hplace : s.IsIn root := by
          rw [← Option.some.inj hs]
          exact hc.lastChild hlast
        exact ⟨⟨s.node, hlast, ⟨hkind, htext⟩,
          (isRedundant_iff hplaced hplace htext).1 hredundant⟩, hloop⟩
      · cases hv
  · rintro ⟨⟨s, hlast, ⟨hkind, htext⟩, hnext⟩, hloop⟩
    have hredundant := (isRedundant_iff hplaced (hc.lastChild hlast) htext).2 hnext
    rw [ofStatement, if_neg hloop, ofStatement?_eq hlast hkind htext, Option.bind_some,
      if_pos hredundant]
    rfl

/-- What the rule finds at a place of a script. -/
def foundAt (t : Text) (c : Cursor) : List Violation :=
  if terminated.contains c.node.kind then (ofStatement t c).toList else []

/-- Whether a violation is found where the last part of a statement stands. -/
def isAtLast (c : Cursor) (v : Violation) : Bool :=
  c.node.children.getLast?.any fun s => v.span == s.span

theorem reports_eq_countP (vs : List Violation) (c : Cursor) :
    reports vs c = (vs.filter (·.rule == .semi)).countP (isAtLast c) := by
  rw [reports, List.countP_filter]
  rfl

/-- A statement is reported where its last part stands. -/
theorem countP_foundAt_self (hkind : terminated.contains c.node.kind = true) :
    (foundAt t c).countP (isAtLast c) = if (ofStatement t c).isSome then 1 else 0 := by
  rw [foundAt, if_pos hkind]
  cases hv : ofStatement t c with
  | none => rfl
  | some v =>
    obtain ⟨-, s, hs, -, hspan, -⟩ := ofStatement_eq_some hv
    have hlast := (ofStatement?_eq_some hs).1
    rw [Option.toList_some, List.countP_singleton]
    simp [isAtLast, hlast, hspan]

namespace IsScript

variable (h : IsScript t root)
include h

theorem areTokens : AreTokens root := fun n hn hkind hnamed => by
  rw [h.semicolons n hn hkind] at hnamed
  cases hnamed

/-- The last part of a statement does not stand where another statement has its semicolon. -/
theorem span_ne {r : Cursor} {last : Node} (he : e.node ∈ root.preorder)
    (hc : c.node ∈ root.preorder) (hkind : terminated.contains e.node.kind = true)
    (hr : ofStatement? t e = some r) (hlast : c.node.children.getLast? = some last)
    (hapart : Apart t e c) : r.node.span ≠ last.span := by
  intro heq
  obtain ⟨hrlast, hrkind, hrtext⟩ := ofStatement?_eq_some hr
  have hrmem : r.node ∈ root.preorder := Node.mem_preorder_trans he
    (Node.mem_preorder_of_child (List.mem_of_getLast? hrlast) (Node.self_mem_preorder _))
  have hlastmem : last ∈ root.preorder := Node.mem_preorder_trans hc
    (Node.mem_preorder_of_child (List.mem_of_getLast? hlast) (Node.self_mem_preorder _))
  have hone := (stop_of_text h.placed hrmem hrtext).2
  have hstart : r.node.start = last.start := congrArg Span.start heq
  have hstop : r.node.stop = last.stop := congrArg Span.stop heq
  by_cases hlastkind : last.kind = ";"
  · -- two semicolons, which are apart
    have htext : last.text t = [';'] := by rw [Node.text, ← heq]; exact hrtext
    have hfar := hapart r hr _ (ofStatement?_eq hlast hlastkind htext)
    simp only [Fix.Apart, Fix.delete, Fix.replace] at hfar
    change r.node.stop ≤ last.start ∨ last.stop ≤ r.node.start at hfar
    omega
  · -- something else in the place of the semicolon would have to be below it or above it
    have hsolid := h.solid _ he hkind r.node hrlast hrkind
    have hbelow : last ∉ r.node.preorder := by
      intro hmem
      rw [Node.mem_preorder, h.tokens _ hrmem (h.semicolons _ hrmem hrkind)] at hmem
      rcases hmem with rfl | ⟨m, hm, -⟩
      · exact hlastkind hrkind
      · cases hm
    have hestop := ((h.placed.below he).nested _ (Node.self_mem_preorder _) r.node
      (List.mem_of_getLast? hrlast)).2
    rcases h.placed.nested_of_overlap hlastmem he (by omega) (by omega) with hmem | hmem
    · rcases Node.mem_preorder.1 hmem with rfl | ⟨m, hm, hmem⟩
      · omega
      · have hwithin := ((h.placed.below he).child hm).within hmem
        by_cases hmr : m = r.node
        · exact hbelow (hmr ▸ hmem)
        · have hapart := (h.placed.below he).apart_of_ne hm (List.mem_of_getLast? hrlast) hmr
          omega
    · have hwithin := (h.placed.below hlastmem).within hmem
      omega

/-- The other statements are reported elsewhere. -/
theorem countP_foundAt_of_apart (he : e.node ∈ root.preorder) (hc : c.node ∈ root.preorder)
    (hapart : Apart t e c) : (foundAt t e).countP (isAtLast c) = 0 := by
  refine List.countP_eq_zero.2 fun v hv hat => ?_
  rw [foundAt] at hv
  split at hv
  · rename_i hkind
    obtain ⟨-, r, hr, -, hspan, -⟩ := ofStatement_eq_some (Option.mem_toList.1 hv)
    obtain ⟨last, hlast, heq⟩ := (Option.any_eq_true _ _).1 hat
    exact h.span_ne he hc hkind hr hlast hapart (hspan.symm.trans (beq_iff_eq.1 heq))
  · cases hv

theorem countP_flatMap_of_apart {places : List Cursor} (hc : c.node ∈ root.preorder)
    (hplaces : ∀ e ∈ places, e.node ∈ root.preorder ∧ Apart t e c) :
    (places.flatMap (foundAt t)).countP (isAtLast c) = 0 := by
  refine List.countP_eq_zero.2 fun v hv => ?_
  obtain ⟨e, he, hv⟩ := List.mem_flatMap.1 hv
  obtain ⟨hmem, hapart⟩ := hplaces e he
  exact List.countP_eq_zero.1 (h.countP_foundAt_of_apart hmem hc hapart) v hv

end IsScript

/-! ## The whole script -/

/-- Alone, the rule looks at the statements that may end with a semicolon. -/
theorem violationsAt_alone (t : Text) (c : Cursor) :
    ScriptCheck.violationsAt t [.semi] c = foundAt t c := by
  have hother : ∀ {rule : Rule} {found : Option Violation}, rule ≠ .semi →
      ScriptCheck.foundBy [.semi] rule found = [] := by
    intro rule found hrule
    simp [ScriptCheck.foundBy, hrule]
  have hown : ScriptCheck.foundBy [.semi] .semi (ofStatement t c) = (ofStatement t c).toList := by
    simp [ScriptCheck.foundBy]
  have hstatement : ScriptCheck.statementViolations t [.semi] c = (ofStatement t c).toList := by
    rw [ScriptCheck.statementViolations, hown, hother (by decide), ite_self, List.nil_append]
  have hkinds : ∀ kinds : List String,
      kinds.all (fun k => !terminated.contains k) = true → kinds.contains c.node.kind = true →
      [] = foundAt t c := by
    intro kinds hall hkind
    rw [foundAt, ScriptCheck.terminated_of_mem hall hkind]
    rfl
  unfold ScriptCheck.violationsAt
  simp only [hother (show Rule.eqeqeq ≠ .semi by decide), hstatement,
    hother (show Rule.useIsnan ≠ .semi by decide), hother (show Rule.noEval ≠ .semi by decide),
    hother (show Rule.noFuncKeyword ≠ .semi by decide),
    hother (show Rule.noEmpty ≠ .semi by decide), hother (show Rule.noWith ≠ .semi by decide),
    List.append_nil]
  split
  · exact hkinds ["binary_expression"] (by decide) (by simp [*])
  split
  · exact hkinds ["call_expression"] (by decide) (by simp [*])
  split
  · exact hkinds ["function_declaration", "function_expression", "function"] (by decide) ‹_›
  split
  · rename_i hkind
    exact hkinds ["statement_block", "switch_body"] (by decide) (by simpa using hkind)
  split
  · exact hkinds ["with_statement"] (by decide) (by simp [*])
  · rfl

/-- What the rule finds in a script. -/
theorem filter_violations {d : Document} {rules : RuleSet} {o : RuleOptions} {root : Node}
    {vs : List Violation} (hrule : .semi ∈ rules)
    (h : (ScriptCheck.violations d rules o root).value = .ok vs) :
    vs.filter (·.rule == .semi) = (Cursor.namedPlaces [] root).flatMap (foundAt d.text) := by
  have halone := ScriptCheck.alone_of_violations (R := .semi) h
  rw [if_pos (by simpa using hrule)] at halone
  rw [← Except.ok.inj halone]
  change [] ++ (Cursor.namedPlaces [] root).flatMap (ScriptCheck.violationsAt d.text [.semi]) = _
  rw [List.nil_append]
  exact List.flatMap_congr fun c _ => violationsAt_alone d.text c

section

variable {d : Document} {rules : RuleSet} {o : RuleOptions} {vs : List Violation}

/-- How often a statement is reported is up to the statement itself. -/
theorem reports_eq (hscript : IsScript d.text root) (hrule : .semi ∈ rules)
    (hc : c ∈ Cursor.namedPlaces [] root) (hkind : terminated.contains c.node.kind = true)
    (h : (ScriptCheck.violations d rules o root).value = .ok vs) :
    reports vs c = if (ofStatement d.text c).isSome then 1 else 0 := by
  obtain ⟨front, behind, hplaces⟩ := List.append_of_mem hc
  have hapart := pairwise_namedPlaces hscript.placed hscript.areTokens []
  rw [hplaces, List.pairwise_append, List.pairwise_cons] at hapart
  obtain ⟨-, ⟨hbehind, -⟩, hfront⟩ := hapart
  have hmem : ∀ e ∈ front ++ c :: behind, e.node ∈ root.preorder := by
    intro e he
    rw [← hplaces] at he
    exact Cursor.node_mem_preorder he
  have hcmem := Cursor.node_mem_preorder hc
  have hfronts : (front.flatMap (foundAt d.text)).countP (isAtLast c) = 0 :=
    hscript.countP_flatMap_of_apart hcmem fun e he =>
      ⟨hmem e (List.mem_append_left _ he), hfront e he c List.mem_cons_self⟩
  have hbehinds : (behind.flatMap (foundAt d.text)).countP (isAtLast c) = 0 :=
    hscript.countP_flatMap_of_apart hcmem fun e he =>
      ⟨hmem e (List.mem_append_right _ (List.mem_cons_of_mem c he)),
        fun r hr s hs => (hbehind e he s hs r hr).symm⟩
  rw [reports_eq_countP, filter_violations hrule h, hplaces, List.flatMap_append,
    List.flatMap_cons, List.countP_append, List.countP_append, countP_foundAt_self hkind,
    hfronts, hbehinds, Nat.zero_add, Nat.add_zero]

end

/-- A loop whose body is a statement without braces, and another statement. -/
def loopText : Text := "for (;;) a;\nb;".toList

/-- The body of the loop. -/
def loopBody : Node :=
  .mk ⟨"expression_statement", true, some "body", ⟨9, 11⟩⟩
    [.construct "identifier" 9 10, .token ";" 10]

/-- The loop. -/
def loopStatement : Node :=
  .construct "for_statement" 0 11
    [.token "for" 0, .token "(" 4,
     .mk ⟨"empty_statement", true, some "initializer", ⟨5, 6⟩⟩ [.token ";" 5],
     .mk ⟨"empty_statement", true, some "condition", ⟨6, 7⟩⟩ [.token ";" 6],
     .token ")" 7, loopBody]

/-- The statement behind the loop. -/
def nextStatement : Node :=
  .construct "expression_statement" 12 14 [.construct "identifier" 12 13, .token ";" 13]

/-- The tree of the script. -/
def loopScript : Node := .construct "program" 0 14 [loopStatement, nextStatement]

/-- The document of the script. -/
def loopDocument : Document := .ofFile (ParseTable.parser []) ⟨"a.js"⟩ loopText .script

end Semicolon
end WebLint
