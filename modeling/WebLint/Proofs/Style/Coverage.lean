import Mathlib.Data.List.Perm.Basic
import WebLint.Proofs.Style.Indentation
import WebLint.Proofs.Style.Selector
import WebLint.Proofs.Style.Statements

/-!
# What a check of a stylesheet looks at

The rules about indentation and quotes are led through a sheet by walks that decide on their
own which nodes to enter: one goes from statement to statement and one collects the strings
of a statement.  Where statements, closing braces and strings stand can be told without any
walk.  In a tree as the grammar gives it the walks come by each of them once.

What is proved here:

* `IsNested.spots_eq` — the spots of a sheet are its statements and closing braces, in the
  order of the tree;
* `IsNested.perm_literals` — the strings of the spots are the strings of the sheet;
* `looksAtAll_unless_rejected` — so the two rules are asked about each of them once, unless a
  selector is refused.
-/

namespace WebLint
namespace StyleCheck

open Node Cursor
open VendorPrefix (holdsStatements)

/-! ## What there is to look at -/

/-- Whether a node is a string. -/
def isString (n : Node) : Bool := n.isNamed && n.kind == "string_value"

/-- How many blocks are around a place. -/
def nesting (c : Cursor) : Nat := c.ancestors.countP isBlock

/-- Whether there is the closing brace of a block at a place. -/
def isClosing (c : Cursor) : Bool :=
  !c.node.isNamed && c.node.kind == "\x7d" && c.parent?.any fun p => isBlock p.node

/-- What the rule about indentation is to look at: a statement, which is nested in the blocks
around it, and a closing brace, which belongs to the statement its block is part of. -/
def spotAt? (c : Cursor) : Option Spot :=
  if isStatement c then some (.statement (nesting c) c.node)
  else if isClosing c then
    (c.parent?.bind parent?).map fun owner => .brace (nesting owner) c.node
  else none

/-- Whether blocks, frames and strings stand where the grammar has them. -/
structure IsNested (root : Node) : Prop where
  /-- The root is a stylesheet. -/
  sheet : root.kind = "stylesheet"
  /-- Punctuation has no parts. -/
  tokens : ∀ c ∈ (ofRoot root).all, c.node.isNamed = false → c.node.children = []
  /-- Blocks are parts of statements. -/
  blocks : BlocksInStatements root
  /-- A frame stands in a list of frames. -/
  frames : ∀ c ∈ (ofRoot root).all, c.node.isNamed = true → c.node.kind = "keyframe_block" →
    (c.parent?.any fun p => p.node.isNamed && p.node.kind == "keyframe_block_list") = true
  /-- A string is neither a statement nor part of another string. -/
  strings : ∀ c ∈ (ofRoot root).all, isString c.node = true →
    isInside c = false ∧ ∀ a ∈ c.ancestors, isString a = false

instance (root : Node) : Decidable (IsNested root) :=
  decidable_of_iff
    (root.kind = "stylesheet" ∧
      (∀ c ∈ (ofRoot root).all, c.node.isNamed = false → c.node.children.isEmpty = true) ∧
      BlocksInStatements root ∧
      (∀ c ∈ (ofRoot root).all, c.node.isNamed = true → c.node.kind = "keyframe_block" →
        (c.parent?.any fun p => p.node.isNamed && p.node.kind == "keyframe_block_list") = true) ∧
      ∀ c ∈ (ofRoot root).all, isString c.node = true →
        isInside c = false ∧ ∀ a ∈ c.ancestors, isString a = false)
    ⟨fun ⟨hr, ht, hb, hf, hs⟩ => ⟨hr, fun c hc hn => List.isEmpty_iff.1 (ht c hc hn), hb, hf, hs⟩,
      fun ⟨hr, ht, hb, hf, hs⟩ => ⟨hr, fun c hc hn => List.isEmpty_iff.2 (ht c hc hn), hb, hf, hs⟩⟩

/-! ## From a place to its children -/

section

variable {c d : Cursor}

theorem nesting_of_mem_children (h : d ∈ c.children) :
    nesting d = nesting c + if isBlock c.node then 1 else 0 := by
  rw [nesting, ancestors_of_mem_children h, List.countP_cons, nesting]

/-- The strings below a place. -/
theorem filter_preorder (c : Cursor) : c.node.preorder.filter isString =
    [c.node].filter isString ++
      c.children.flatMap fun d => d.node.preorder.filter isString := by
  rw [← map_node_all, all_eq, List.map_cons, List.map_flatMap]
  simp only [map_node_all]
  rw [← List.singleton_append, List.filter_append, List.filter_flatMap]

end

namespace IsNested

variable {root : Node} {c d : Cursor} (h : IsNested root)
include h

theorem isBlock_root : isBlock root = false := by
  simp [isBlock, h.sheet, holdsStatements]

theorem children_eq_nil (hc : c ∈ (ofRoot root).all) (hnamed : c.node.isNamed = false) :
    c.children = [] := by
  rw [← List.map_eq_nil_iff, map_node_children, h.tokens c hc hnamed]

/-! ## Spots -/

/-- Where there is neither a statement nor a container, there is nothing to look at. -/
theorem filterMap_of_not_isInside (hc : c ∈ (ofRoot root).all) (hinside : isInside c = false)
    (hcontainer : isContainer c = false) : c.all.filterMap spotAt? = [] := by
  induction c using Cursor.induction with
  | step c ih =>
    have hspot : spotAt? c = none := by
      have hstatement : isStatement c = false := by simp [isStatement, hinside]
      have hclosing : isClosing c = false := by
        rw [isClosing, Bool.and_eq_false_iff]
        right
        cases hparent : c.parent? with
        | none => rfl
        | some p =>
          by_cases hp : isBlock p.node = true
          · simp [isInside, hparent, isContainer_of_isBlock hp] at hinside
          · simpa using hp
      simp [spotAt?, hstatement, hclosing]
    rw [filterMap_all, hspot, Option.toList_none, List.nil_append, List.flatMap_eq_nil_iff]
    intro d hd
    have hmem := mem_all_of_mem_children hc hd
    obtain ⟨hinside', hcontainer'⟩ :=
      h.blocks.not_isInside_of_mem_children hmem hd hinside hcontainer
    exact ih d hd hmem hinside' hcontainer'

/-- A token of a block is looked at when it closes the block. -/
theorem toList_spotAt? (hc : c ∈ (ofRoot root).all) (hinside : isInside c = true)
    (hnamed : c.node.isNamed = false) :
    (spotAt? c).toList =
      if c.node.kind = "\x7d" ∧ 0 < nesting c then [.brace (nesting c - 1) c.node] else [] := by
  obtain ⟨p, hp, hcontainer⟩ := (Option.any_eq_true _ _).1 hinside
  obtain ⟨hparent, hmem⟩ := (mem_all_ofRoot.1 hc).parent hp
  have hstatement : isStatement c = false := by simp [isStatement, hnamed]
  by_cases hblock : isBlock p.node = true
  · -- a token of a block, which belongs to a statement
    obtain ⟨owner, howner, hstatement'⟩ :=
      (Option.any_eq_true _ _).1 (h.blocks p (mem_all_ofRoot.2 hparent) hblock)
    obtain ⟨hin, hpart⟩ := hparent.parent howner
    have hnesting : nesting c = nesting owner + 1 := by
      rw [nesting_of_mem_children hmem, nesting_of_mem_children hpart,
        h.blocks.isBlock_of_isStatement (mem_all_ofRoot.2 hin) hstatement']
      simp [hblock]
    by_cases hkind : c.node.kind = "\x7d"
    · simp [spotAt?, hstatement, isClosing, hnamed, hkind, hp, hblock, howner, hnesting]
    · simp [spotAt?, hstatement, isClosing, hkind]
  · -- a token in front of the whole sheet
    have hroot : p.above = [] := by simpa [isContainer, hblock] using hcontainer
    have hnesting : nesting c = 0 := by
      rw [nesting_of_mem_children hmem, nesting, ancestors, hroot]
      simp [hblock]
    simp [spotAt?, hstatement, isClosing, hp, hblock, hnesting]

/-- What is to be looked at below a place is what the walk comes by there: directly in the
sheet or in a block, and in a statement. -/
theorem filterMap_eq (hc : c ∈ (ofRoot root).all) :
    (isInside c = true → c.all.filterMap spotAt? = spotsOf (nesting c) c.node) ∧
      (c.parent?.any isStatement = true →
        c.all.filterMap spotAt? = blockSpots (nesting c) c.node) := by
  induction c using Cursor.induction with
  | step c ih =>
    have hmem : ∀ d ∈ c.children, d ∈ (ofRoot root).all :=
      fun d hd => mem_all_of_mem_children hc hd
    constructor
    · intro hinside
      unfold spotsOf
      split
      · -- a statement: after it come the spots of its blocks
        rename_i hnamed
        have hstatement : isStatement c = true := by simp [isStatement, hnamed, hinside]
        have hspot : spotAt? c = some (.statement (nesting c) c.node) := by
          simp [spotAt?, hstatement]
        rw [filterMap_all, hspot, Option.toList_some, List.singleton_append,
          innerSpots_eq_flatMap, flatMap_node_children]
        refine congrArg _ (List.flatMap_congr fun d hd => ?_)
        rw [(ih d hd (hmem d hd)).2 (by rw [parent?_of_mem_children hd]; exact hstatement),
          nesting_of_mem_children hd, h.blocks.isBlock_of_isStatement hc hstatement]
        simp
      · rename_i hnamed
        have hnamed : c.node.isNamed = false := by simpa using hnamed
        rw [filterMap_all, h.children_eq_nil hc hnamed, List.flatMap_nil, List.append_nil,
          h.toList_spotAt? hc hinside hnamed]
    · intro howner
      obtain ⟨hinside, hcontainer⟩ := h.blocks.part_of_statement hc howner
      unfold blockSpots
      split
      · -- a block: what is in it is nested once more
        rename_i hblock
        have hblock : isBlock c.node = true := hblock
        have hspot : spotAt? c = none := by
          have hnamed : c.node.isNamed = true := (Bool.and_eq_true_iff.1 hblock).1
          simp [spotAt?, isStatement, isClosing, hinside, hnamed]
        rw [filterMap_all, hspot, Option.toList_none, List.nil_append, spots_eq_flatMap,
          flatMap_node_children]
        refine List.flatMap_congr fun d hd => ?_
        have hinside' : isInside d = true := by
          rw [isInside_of_mem_children hd]
          exact isContainer_of_isBlock hblock
        rw [(ih d hd (hmem d hd)).1 hinside', nesting_of_mem_children hd, if_pos hblock]
      · rename_i hblock
        exact h.filterMap_of_not_isInside hc hinside (hcontainer.trans (Bool.eq_false_iff.2 hblock))

/-- The spots of a sheet are its statements and closing braces, in the order of the tree. -/
theorem spots_eq : spots 0 root.children = (ofRoot root).all.filterMap spotAt? := by
  have hroot : spotAt? (ofRoot root) = none := by
    simp [spotAt?, isStatement, isInside, isClosing, parent?, ofRoot]
  rw [filterMap_all, hroot, Option.toList_none, List.nil_append, spots_eq_flatMap]
  refine (flatMap_node_children _ (ofRoot root)).trans (List.flatMap_congr fun d hd => ?_)
  have hinside : isInside d = true := by
    rw [isInside_of_mem_children hd]
    rfl
  have hnesting : nesting d = 0 := by
    rw [nesting_of_mem_children hd]
    simp [nesting, ancestors, ofRoot, h.isBlock_root]
  rw [(h.filterMap_eq (mem_all_of_mem_children (self_mem_all _) hd)).1 hinside, hnesting]

/-! ## Strings -/

/-- Where there is neither a statement nor a block, no frame stands either. -/
theorem isInner_eq_false (hc : c ∈ (ofRoot root).all) (hinside : isInside c = false)
    (hblock : isBlock c.node = false) (hnamed : c.node.isNamed = true) :
    isInner c.node.kind = false := by
  have hholds : holdsStatements c.node.kind = false := by simpa [isBlock, hnamed] using hblock
  rw [isInner, hholds, Bool.false_or]
  by_cases hframe : c.node.kind = "keyframe_block"
  · obtain ⟨p, hp, hlist⟩ := (Option.any_eq_true _ _).1 (h.frames c hc hnamed hframe)
    rw [Bool.and_eq_true, beq_iff_eq] at hlist
    have hcontainer : isContainer p = true :=
      isContainer_of_isBlock (by simp [isBlock, hlist, holdsStatements])
    simp [isInside, hp, hcontainer] at hinside
  · simpa using hframe

/-- There is no string in a string. -/
theorem filter_preorder_of_isString (hc : c ∈ (ofRoot root).all) (hstring : isString c.node = true)
    (hd : d ∈ c.children) : d.node.preorder.filter isString = [] := by
  rw [List.filter_eq_nil_iff]
  intro n hn hn'
  rw [← map_node_all] at hn
  obtain ⟨e, he, rfl⟩ := List.mem_map.1 hn
  have hmem := mem_all_ofRoot.2
    (((mem_all_ofRoot.1 hc).of_mem_children hd).of_mem_all he)
  have habove : c.node ∈ e.ancestors := by
    refine (ancestors_of_mem_all he).2 _ ?_
    rw [ancestors_of_mem_children hd]
    exact List.mem_cons_self
  rw [(h.strings e hmem hn').2 _ habove] at hstring
  cases hstring

/-- A walk that goes by blocks and frames leaves out no string, where there is neither a
statement nor a container. -/
theorem stringsOf_eq (hc : c ∈ (ofRoot root).all) (hinside : isInside c = false)
    (hcontainer : isContainer c = false) :
    stringsOf c.node = c.node.preorder.filter isString := by
  induction c using Cursor.induction with
  | step c ih =>
    have hblock : isBlock c.node = false := (Bool.or_eq_false_iff.1 hcontainer).2
    rw [filter_preorder]
    unfold stringsOf
    by_cases hnamed : c.node.isNamed = true
    · rw [h.isInner_eq_false hc hinside hblock hnamed]
      by_cases hkind : c.node.kind = "string_value"
      · have hstring : isString c.node = true := by simp [isString, hnamed, hkind]
        have hnone : c.children.flatMap (fun d => d.node.preorder.filter isString) = [] :=
          List.flatMap_eq_nil_iff.2 fun d hd => h.filter_preorder_of_isString hc hstring hd
        simp [hnamed, hkind, hstring, hnone]
      · have hstring : isString c.node = false := by simp [isString, hkind]
        have hparts : StyleCheck.strings c.node =
            c.children.flatMap fun d => d.node.preorder.filter isString := by
          rw [strings_eq_flatMap, flatMap_node_children]
          refine List.flatMap_congr fun d hd => ?_
          have hmem := mem_all_of_mem_children hc hd
          obtain ⟨hinside', hcontainer'⟩ :=
            h.blocks.not_isInside_of_mem_children hmem hd hinside hcontainer
          exact ih d hd hmem hinside' hcontainer'
        simp [hnamed, hkind, hstring, hparts]
    · have hnamed : c.node.isNamed = false := by simpa using hnamed
      have hstring : isString c.node = false := by simp [isString, hnamed]
      simp [hnamed, hstring, h.children_eq_nil hc hnamed]

/-- The strings that a walk hands on below a place are those of the tree: directly in the
sheet or in a block, and in a statement. -/
theorem perm_filter (hc : c ∈ (ofRoot root).all) (depth : Nat) :
    (isInside c = true →
      ((spotsOf depth c.node).flatMap Spot.literals).Perm (c.node.preorder.filter isString)) ∧
    (c.parent?.any isStatement = true →
      (stringsOf c.node ++ (blockSpots depth c.node).flatMap Spot.literals).Perm
        (c.node.preorder.filter isString)) := by
  induction c using Cursor.induction generalizing depth with
  | step c ih =>
    have hmem : ∀ d ∈ c.children, d ∈ (ofRoot root).all :=
      fun d hd => mem_all_of_mem_children hc hd
    constructor
    · intro hinside
      have hstring : isString c.node = false := by
        by_cases hs : isString c.node = true
        · rw [(h.strings c hc hs).1] at hinside
          cases hinside
        · simpa using hs
      rw [filter_preorder]
      unfold spotsOf
      split
      · -- a statement: its own strings, and those of its blocks
        rename_i hnamed
        have hstatement : isStatement c = true := by simp [isStatement, hnamed, hinside]
        rw [List.flatMap_cons, innerSpots_eq_flatMap, List.flatMap_assoc]
        show (StyleCheck.strings c.node ++ _).Perm _
        rw [strings_eq_flatMap, flatMap_node_children, flatMap_node_children]
        refine (List.flatMap_append_perm _ _ _).trans ?_
        simp only [hstring, List.filter_cons_of_neg, Bool.false_eq_true, not_false_eq_true,
          List.filter_nil, List.nil_append]
        refine List.Perm.flatMap_left _ fun d hd => ?_
        exact (ih d hd (hmem d hd) depth).2 (by rw [parent?_of_mem_children hd]; exact hstatement)
      · rename_i hnamed
        have hnamed : c.node.isNamed = false := by simpa using hnamed
        rw [h.children_eq_nil hc hnamed]
        split
        · simp [hstring, Spot.literals]
        · simp [hstring]
    · intro howner
      obtain ⟨hinside, hcontainer⟩ := h.blocks.part_of_statement hc howner
      by_cases hblock : isBlock c.node = true
      · -- a block: nothing of it belongs to the statement
        obtain ⟨hnamed, hholds⟩ := Bool.and_eq_true_iff.1 hblock
        have hstring : isString c.node = false := by
          by_cases hkind : c.node.kind = "string_value"
          · rw [hkind] at hholds
            cases hholds
          · simp [isString, hkind]
        have hspots : blockSpots depth c.node = spots (depth + 1) c.node.children := if_pos hblock
        have hstrings : stringsOf c.node = [] := if_pos (by simp [isInner, hholds])
        rw [hspots, hstrings, filter_preorder, spots_eq_flatMap, flatMap_node_children,
          List.flatMap_assoc]
        simp only [hstring, List.filter_cons_of_neg, Bool.false_eq_true, not_false_eq_true,
          List.filter_nil, List.nil_append]
        refine List.Perm.flatMap_left _ fun d hd => (ih d hd (hmem d hd) (depth + 1)).1 ?_
        rw [isInside_of_mem_children hd]
        exact isContainer_of_isBlock hblock
      · have hspots : blockSpots depth c.node = [] := if_neg hblock
        rw [hspots, List.flatMap_nil, List.append_nil,
          h.stringsOf_eq hc hinside (hcontainer.trans (Bool.eq_false_iff.2 hblock))]

/-- The strings of the spots are the strings of the sheet. -/
theorem perm_literals :
    ((spots 0 root.children).flatMap Spot.literals).Perm (root.preorder.filter isString) := by
  have hroot : isString root = false := by simp [isString, h.sheet]
  have hfilter := filter_preorder (ofRoot root)
  have hchildren := flatMap_node_children (spotsOf 0) (ofRoot root)
  simp only [ofRoot, hroot, List.filter_cons_of_neg, Bool.false_eq_true, not_false_eq_true,
    List.filter_nil, List.nil_append] at hfilter hchildren
  rw [hfilter, spots_eq_flatMap, hchildren, List.flatMap_assoc]
  refine List.Perm.flatMap_left _ fun d hd => ?_
  refine (h.perm_filter (mem_all_of_mem_children (self_mem_all _) hd) 0).1 ?_
  rw [isInside_of_mem_children hd]
  rfl

end IsNested

/-! ## Whole sheets -/

section

variable {parser : Parser} {d : Document} {rules : RuleSet} {o : RuleOptions} {root : Node}

/-- Alone, the rule about quotes looks at the strings of each spot. -/
theorem violationsAt_quotes (s : Spot) : violationsAt d [.stringQuotes] o s =
    s.literals.filterMap (Quotes.ofString d.text o.quote) := by
  cases s with
  | brace depth n => rfl
  | statement depth n => simp [violationsAt, prefixViolations, whenEnabled, Spot.literals]

/-- What a check finds about quotes is what the rule finds in the strings of the spots. -/
theorem filter_quotes {vs : List Violation}
    (h : (violations parser d rules o root).value = .ok vs) :
    vs.filter (·.rule == .stringQuotes) = whenEnabled rules .stringQuotes
      (((spots 0 root.children).flatMap Spot.literals).filterMap
        (Quotes.ofString d.text o.quote)) := by
  rw [filter_violations (by decide) violationsAt_quotes h, List.filterMap_flatMap]

/-- A check whose rules include the one about repeated declarations fails with the first
selector that is refused. -/
theorem violations_of_rejected (hrules : .noDuplicateDeclarations ∈ rules) {s : String}
    (h : (Duplicates.selectorsOf (Sheet.ofTree d.text root)).find?
      (Duplicates.isRejected parser) = some s) :
    (violations parser d rules o root).value = .error (.malformedSelector d.file ⟨s⟩) := by
  rw [violations, Logged.value_bind, List.contains_iff_mem.2 hrules,
    Duplicates.detect_eq_error h]
  rfl

/-- Otherwise it does not fail. -/
theorem exists_violations_of_accepted (hrules : .noDuplicateDeclarations ∈ rules)
    (h : (Duplicates.selectorsOf (Sheet.ofTree d.text root)).find?
      (Duplicates.isRejected parser) = none) :
    ∃ vs, (violations parser d rules o root).value = .ok vs := by
  obtain ⟨findings, hfindings⟩ := Duplicates.detect_eq_ok h
  rw [violations, Logged.value_bind, List.contains_iff_mem.2 hrules, hfindings]
  exact ⟨_, rfl⟩

end

/-- Whether a check asks the rules about indentation and quotes for all there is to look at in
a sheet, each place once, and for nothing else. -/
structure LooksAtAll (parser : Parser) (d : Document) (rules : RuleSet) (o : RuleOptions)
    (root : Node) : Prop where
  /-- The spots are the statements and closing braces. -/
  spots_eq : spots 0 root.children = (ofRoot root).all.filterMap spotAt?
  /-- Their strings are the strings of the tree. -/
  perm_literals :
    ((spots 0 root.children).flatMap Spot.literals).Perm (root.preorder.filter isString)
  /-- What is found about indentation is found at the spots, and what is found about quotes
  is found in the strings. -/
  found : ∃ vs, (violations parser d rules o root).value = .ok vs ∧
    vs.filter (·.rule == .indentation) =
      (spots 0 root.children).filterMap (StyleIndentation.ofSpot d o) ∧
    vs.filter (·.rule == .stringQuotes) =
      ((spots 0 root.children).flatMap Spot.literals).filterMap
        (Quotes.ofString d.text o.quote)

/-- A sheet with a string in a frame. -/
def framesText : Text := "@keyframes k \x7b to \x7b content: \"x\" \x7d \x7d".toList

/-- The tree of this sheet. -/
def framesSheet : Node :=
  let value := .construct "string_value" 29 32
    [.token "\"" 29, .construct "string_content" 30 31, .token "\"" 31]
  let declaration := .construct "declaration" 20 32
    [.construct "property_name" 20 27, .token ":" 27, value]
  let frame := .construct "keyframe_block" 15 34
    [.construct "to" 15 17,
     .construct "block" 18 34 [.token "\x7b" 18, declaration, .token "\x7d" 33]]
  .construct "stylesheet" 0 36
    [.construct "keyframes_statement" 0 36
      [.construct "at_keyword" 0 10, .construct "keyframes_name" 11 12,
       .construct "keyframe_block_list" 13 36 [.token "\x7b" 13, frame, .token "\x7d" 35]]]

/-- The parser that knows this sheet. -/
def framesTrees : ParseTable := [⟨.css, framesText, none, ⟨false, framesSheet⟩⟩]

/-- A sheet with a selector that is nothing but a space of fixed width. -/
def blankText : Text := "\u00a0 \x7b x: \"y\" \x7d".toList

/-- The tree of this sheet: the grammar takes the space for a name. -/
def blankSheet : Node :=
  let value := .construct "string_value" 8 11
    [.token "\"" 8, .construct "string_content" 9 10, .token "\"" 10]
  let declaration := .construct "declaration" 5 11
    [.construct "property_name" 5 6, .token ":" 6, value]
  .construct "stylesheet" 0 13
    [.construct "rule_set" 0 13
      [.construct "selectors" 0 2 [.construct "tag_name" 0 2],
       .construct "block" 3 13 [.token "\x7b" 3, declaration, .token "\x7d" 12]]]

/-- The parser that knows this sheet. -/
def blankTrees : ParseTable := [⟨.css, blankText, none, ⟨false, blankSheet⟩⟩]

end StyleCheck
end WebLint
