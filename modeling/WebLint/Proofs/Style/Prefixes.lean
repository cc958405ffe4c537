import WebLint.Proofs.Checker.Independence
import WebLint.Proofs.Style.Parts
import WebLint.Proofs.Style.Spots

/-!
# Vendor prefixes in a whole sheet

Two of the rules about vendor prefixes search whole statements: one the rules of a sheet for
selectors, one its declarations for words of the value.  Statements stand in each other's
blocks, which a search does not enter.  So what is part of one statement is not searched along
with the statements around it.

What is proved here:

* `BlocksInStatements.filterMap_statement?` — the walk through a sheet comes by its statements,
  in the order of the tree;
* `PrefixSearch.violationsAt_alone` — at a statement a rule reports what its search finds;
* `prefixes_reportedOnce` — a name with a prefix that is part of a statement of the kind to be
  searched is reported by this statement and by no other one.
-/

namespace WebLint
namespace StyleCheck

open Node Cursor

variable {root : Node} {c d : Cursor}

/-! ## Statements -/

/-- The statement at a spot, if there is one. -/
def Spot.statement? : Spot → Option Node
  | .statement _ n => some n
  | .brace _ _ => none

/-- The statements of a tree. -/
def statements (root : Node) : List Cursor := (ofRoot root).all.filter isStatement

/-- The statements below a place are itself, if it is one, and those below its children. -/
theorem map_filter_isStatement (c : Cursor) : (c.all.filter isStatement).map (·.node) =
    (if isStatement c then [c.node] else []) ++
      c.children.flatMap fun d => (d.all.filter isStatement).map (·.node) := by
  rw [all_eq, List.filter_cons, List.filter_flatMap]
  split <;> simp [List.map_flatMap]

namespace BlocksInStatements

variable (h : BlocksInStatements root)
include h

/-- Where there is neither a statement nor a container, there are no statements below. -/
theorem map_filter_eq_nil (hc : c ∈ (ofRoot root).all) (hinside : isInside c = false)
    (hcontainer : isContainer c = false) : (c.all.filter isStatement).map (·.node) = [] := by
  induction c using Cursor.induction with
  | step c ih =>
    have hstatement : isStatement c = false := by simp [isStatement, hinside]
    rw [map_filter_isStatement, hstatement, if_neg Bool.false_ne_true, List.nil_append,
      List.flatMap_eq_nil_iff]
    intro d hd
    have hmem := mem_all_of_mem_children hc hd
    obtain ⟨hinside', hcontainer'⟩ := h.not_isInside_of_mem_children hmem hd hinside hcontainer
    exact ih d hd hmem hinside' hcontainer'

/-- The statements below a place are those the walk comes by there: directly in the sheet or
in a block, and in a statement. -/
theorem map_filter_eq (hc : c ∈ (ofRoot root).all) (depth : Nat) :
    (isInside c = true → (c.all.filter isStatement).map (·.node) =
      (spotsOf depth c.node).filterMap Spot.statement?) ∧
    (c.parent?.any isStatement = true → (c.all.filter isStatement).map (·.node) =
      (blockSpots depth c.node).filterMap Spot.statement?) := by
  induction c using Cursor.induction generalizing depth with
  | step c ih =>
    have hmem : ∀ d ∈ c.children, d ∈ (ofRoot root).all :=
      fun d hd => mem_all_of_mem_children hc hd
    rw [map_filter_isStatement]
    constructor
    · intro hinside
      cases hnamed : c.node.isNamed with
      | true =>
        -- a statement: after it come those of its blocks
        have hstatement : isStatement c = true := by simp [isStatement, hnamed, hinside]
        have hspots : (spotsOf depth c.node).filterMap Spot.statement? =
            c.node :: (innerSpots depth c.node.children).filterMap Spot.statement? := by
          rw [spotsOf, if_pos hnamed]
          rfl
        rw [hspots, if_pos hstatement, innerSpots_eq_flatMap, flatMap_node_children,
          List.filterMap_flatMap, List.singleton_append]
        refine congrArg _ (List.flatMap_congr fun d hd => (ih d hd (hmem d hd) depth).2 ?_)
        rw [parent?_of_mem_children hd]
        exact hstatement
      | false =>
        -- a token: what is below it is part of no statement
        have hstatement : isStatement c = false := by simp [isStatement, hnamed]
        have hcontainer : isContainer c = false := by
          obtain ⟨p, hp, -⟩ := (Option.any_eq_true _ _).1 hinside
          rw [isContainer_of_mem_children ((mem_all_ofRoot.1 hc).parent hp).2, isBlock, hnamed,
            Bool.false_and]
        have hbelow : ∀ d ∈ c.children, (d.all.filter isStatement).map (·.node) = [] :=
          fun d hd => h.map_filter_eq_nil (hmem d hd)
            (by rw [isInside_of_mem_children hd, hcontainer])
            (by rw [isContainer_of_mem_children hd,
              h.isBlock_of_not_isStatement (hmem d hd) hd hstatement])
        rw [hstatement, if_neg Bool.false_ne_true, List.nil_append,
          List.flatMap_eq_nil_iff.2 hbelow, spotsOf, hnamed, if_neg Bool.false_ne_true]
        split <;> rfl
    · intro howner
      obtain ⟨hinside, hcontainer⟩ := h.part_of_statement hc howner
      have hstatement : isStatement c = false := by simp [isStatement, hinside]
      rw [hstatement, if_neg Bool.false_ne_true, List.nil_append]
      by_cases hblock : isBlock c.node = true
      · -- a block: the statements in it come next
        have hspots : blockSpots depth c.node = spots (depth + 1) c.node.children := if_pos hblock
        rw [hspots, spots_eq_flatMap, flatMap_node_children, List.filterMap_flatMap]
        refine List.flatMap_congr fun d hd => (ih d hd (hmem d hd) (depth + 1)).1 ?_
        rw [isInside_of_mem_children hd]
        exact isContainer_of_isBlock hblock
      · have hbelow : ∀ d ∈ c.children, (d.all.filter isStatement).map (·.node) = [] := by
          intro d hd
          obtain ⟨hinside', hcontainer'⟩ := h.not_isInside_of_mem_children (hmem d hd) hd hinside
            (hcontainer.trans (Bool.eq_false_iff.2 hblock))
          exact h.map_filter_eq_nil (hmem d hd) hinside' hcontainer'
        have hspots : blockSpots depth c.node = [] := if_neg hblock
        rw [hspots, List.flatMap_eq_nil_iff.2 hbelow, List.filterMap_nil]

/-- The walk through a sheet comes by its statements, in the order of the tree. -/
theorem filterMap_statement? :
    (spots 0 root.children).filterMap Spot.statement? = (statements root).map (·.node) := by
  have hroot : isStatement (ofRoot root) = false := by simp [isStatement, isInside, parent?, ofRoot]
  rw [statements, map_filter_isStatement, hroot, if_neg Bool.false_ne_true, List.nil_append,
    spots_eq_flatMap, List.filterMap_flatMap]
  refine (flatMap_node_children _ (ofRoot root)).trans (List.flatMap_congr fun d hd => ?_)
  refine ((h.map_filter_eq (mem_all_of_mem_children (self_mem_all _) hd) 0).1 ?_).symm
  rw [isInside_of_mem_children hd]
  rfl

end BlocksInStatements

/-! ## The two searches -/

/-- The searches for names with a prefix that go through a whole statement. -/
inductive PrefixSearch where
  /-- Through the selectors of a style rule. -/
  | selectors
  /-- Through the value of a declaration. -/
  | values

namespace PrefixSearch

variable {q : PrefixSearch} {t : Text} {n : Node}

/-- The rule that asks for a search. -/
def rule : PrefixSearch → Rule
  | selectors => .selectorNoVendorPrefix
  | values => .valueNoVendorPrefix

/-- The kind of statement that is searched. -/
def owner : PrefixSearch → String
  | selectors => "rule_set"
  | values => "declaration"

/-- The kinds of constructs that are looked for. -/
def kinds : PrefixSearch → List String
  | selectors => ["pseudo_class_selector", "pseudo_element_selector"]
  | values => ["plain_value", "function_name"]

/-- The name of such a construct. -/
def name? : PrefixSearch → Node → Option Node
  | selectors, n => (VendorPrefix.pseudoName? n).map (·.2)
  | values, n => some n

/-- Whether this name has a prefix. -/
def isPrefixed (q : PrefixSearch) (t : Text) (n : Node) : Bool :=
  (q.name? n).any fun name => VendorPrefix.isPrefixed (name.text t)

/-- What the rule says about such a construct. -/
def violation? : PrefixSearch → Text → Node → Option Violation
  | selectors => VendorPrefix.ofPseudo
  | values => VendorPrefix.ofName .valueNoVendorPrefix

/-- The rule has something to say about names with a prefix. -/
theorem isSome_violation? : (q.violation? t n).isSome = q.isPrefixed t n := by
  cases q with
  | selectors =>
    rw [violation?, isPrefixed, name?, VendorPrefix.ofPseudo]
    cases VendorPrefix.pseudoName? n with
    | none => rfl
    | some found =>
      simp only [Option.bind_some, Option.map_some, Option.any_some]
      cases VendorPrefix.isPrefixed (found.2.text t) <;> rfl
  | values =>
    rw [violation?, isPrefixed, name?, VendorPrefix.ofName, Option.any_some]
    cases VendorPrefix.isPrefixed (n.text t) <;> rfl

/-- What is reported at a statement, each violation along with its place. -/
def report (q : PrefixSearch) (t : Text) (s : Cursor) : List (Cursor × Violation) :=
  if s.node.kind = q.owner then
    (found q.kinds s).filterMap fun p => (q.violation? t p.node).map (p, ·)
  else []

/-- What is reported at a node. -/
def ofNode (q : PrefixSearch) (t : Text) (n : Node) : List Violation :=
  if n.kind = q.owner then (VendorPrefix.below q.kinds n).filterMap (q.violation? t) else []

theorem ofNode_eq (q : PrefixSearch) (t : Text) (s : Cursor) :
    q.ofNode t s.node = (q.report t s).map (·.2) := by
  unfold ofNode report
  split
  · rw [below_eq_map_found, List.filterMap_map, List.map_filterMap]
    exact List.filterMap_congr fun p _ => by simp [Function.comp_def]
  · rfl

/-- What is reported at a statement are the parts found in it whose names have a prefix. -/
theorem map_report (q : PrefixSearch) (t : Text) (s : Cursor) : (q.report t s).map (·.1) =
    if s.node.kind = q.owner then (found q.kinds s).filter fun p => q.isPrefixed t p.node
    else [] := by
  unfold report
  split
  · rw [List.map_filterMap, ← List.filterMap_eq_filter]
    refine List.filterMap_congr fun p _ => ?_
    rw [Option.guard, ← isSome_violation?]
    cases q.violation? t p.node <;> rfl
  · rfl

theorem mem_map_report {s p : Cursor} : p ∈ (q.report t s).map (·.1) ↔
    s.node.kind = q.owner ∧ (IsPart s p ∧ p.node.kind ∈ q.kinds) ∧
      q.isPrefixed t p.node = true := by
  rw [map_report, ← mem_found]
  split
  · rename_i howner
    rw [List.mem_filter]
    exact (and_iff_right howner).symm
  · rename_i howner
    exact iff_of_false List.not_mem_nil fun h => howner h.1

/-- No place is reported twice at a statement. -/
theorem nodup_report (q : PrefixSearch) (t : Text) (s : Cursor) :
    ((q.report t s).map (·.1)).Nodup := by
  rw [map_report]
  split
  · exact (isSearch_found q.kinds s).nodup.filter _
  · exact List.nodup_nil

/-- Alone, the rule reports at a spot what its search finds in the statement there. -/
theorem violationsAt_alone {d : Document} {o : RuleOptions} (q : PrefixSearch) (s : Spot) :
    violationsAt d [q.rule] o s = s.statement?.toList.flatMap (q.ofNode d.text) := by
  cases s with
  | brace depth n => cases q <;> rfl
  | statement depth n =>
    have hone : (Spot.statement? (.statement depth n)).toList.flatMap (q.ofNode d.text) =
        q.ofNode d.text n := List.flatMap_singleton ..
    rw [hone, ofNode]
    by_cases hdeclaration : n.kind = "declaration"
    · cases q <;> simp [violationsAt, prefixViolations, whenEnabled, hdeclaration, rule, owner,
        kinds, violation?, VendorPrefix.ofValues]
    by_cases hrule : n.kind = "rule_set"
    · cases q <;> simp [violationsAt, prefixViolations, whenEnabled, hrule, rule, owner,
        kinds, violation?, VendorPrefix.ofSelectors]
    · cases q <;> simp [violationsAt, prefixViolations, whenEnabled, hdeclaration, hrule, rule,
        owner]

end PrefixSearch

/-! ## Whole sheets -/

section

variable {parser : Parser} {document : Document} {rules : RuleSet} {o : RuleOptions}
  {q : PrefixSearch}

/-- What a check reports for one of the two rules is what is reported at the statements. -/
theorem filter_prefixes (hblocks : BlocksInStatements root) (hrule : q.rule ∈ rules)
    {vs : List Violation} (h : (violations parser document rules o root).value = .ok vs) :
    vs.filter (·.rule == q.rule) =
      ((statements root).flatMap (q.report document.text)).map (·.2) := by
  have hother : q.rule ≠ .noDuplicateDeclarations := by cases q <;> decide
  rw [filter_violations hother q.violationsAt_alone h, whenEnabled,
    if_pos (List.contains_iff_mem.2 hrule)]
  calc (spots 0 root.children).flatMap
        (fun s => s.statement?.toList.flatMap (q.ofNode document.text))
      = ((spots 0 root.children).filterMap Spot.statement?).flatMap (q.ofNode document.text) := by
        rw [List.filterMap_eq_flatMap_toList, List.flatMap_assoc]
    _ = (statements root).flatMap fun s => q.ofNode document.text s.node := by
        rw [hblocks.filterMap_statement?, List.flatMap_map]
    _ = ((statements root).flatMap (q.report document.text)).map (·.2) := by
        simp only [PrefixSearch.ofNode_eq, List.map_flatMap]

end

/-- Whether style rules and declarations occur only as statements. -/
def OnlyStatements (root : Node) : Prop :=
  ∀ c ∈ (ofRoot root).all,
    Sheet.isKind "rule_set" c.node = true ∨ Sheet.isKind "declaration" c.node = true →
      isStatement c = true

instance (root : Node) : Decidable (OnlyStatements root) :=
  inferInstanceAs (Decidable (∀ c ∈ _, _ → _))

/-- The statements that are searched are statements. -/
theorem OnlyStatements.isStatement (h : OnlyStatements root) {r : Cursor}
    (hr : r ∈ (ofRoot root).all) (q : PrefixSearch) (howner : Sheet.isKind q.owner r.node = true) :
    isStatement r = true := by
  cases q with
  | selectors => exact h r hr (Or.inl howner)
  | values => exact h r hr (Or.inr howner)

/-- Whether a check of a sheet reports what one of the two rules is about, each construct
once. -/
structure ReportsOnce (q : PrefixSearch) (parser : Parser) (document : Document)
    (rules : RuleSet) (o : RuleOptions) (root : Node) : Prop where
  /-- A check that does not fail reports what is reported at the statements. -/
  reported : ∀ vs, (violations parser document rules o root).value = .ok vs →
    vs.filter (·.rule == q.rule) =
      ((statements root).flatMap (q.report document.text)).map (·.2)
  /-- What has a prefix and is part of a statement of the kind to be searched is reported at
  one statement. -/
  once : ∀ r ∈ (ofRoot root).all, Sheet.isKind q.owner r.node = true → ∀ p, IsPart r p →
    p.node.kind ∈ q.kinds → q.isPrefixed document.text p.node = true →
      ∃! s, s ∈ statements root ∧ p ∈ (q.report document.text s).map (·.1)
  /-- No place is reported twice at a statement. -/
  nodup : ∀ s, ((q.report document.text s).map (·.1)).Nodup

/-- **Each name with a prefix is reported by one statement.**  A search of a construct finds the
parts of it that are of the kinds it looks for, in the order of the tree and each once.  So in a
sheet whose blocks are parts of statements and whose style rules and declarations are statements
themselves, what has a prefix and is part of a style rule, or of a declaration, is reported at
one statement and not twice. -/
theorem prefixes_reportedOnce (parser : Parser) (document : Document) (o : RuleOptions) :
    (∀ (kinds : List String) (c : Cursor), ∃ ds, IsSearch kinds c ds ∧
      VendorPrefix.below kinds c.node = ds.map (·.node)) ∧
    ∀ {rules : RuleSet} {root : Node}, BlocksInStatements root → OnlyStatements root →
      ∀ q : PrefixSearch, q.rule ∈ rules → ReportsOnce q parser document rules o root := by
  refine ⟨fun kinds c => ⟨found kinds c, isSearch_found kinds c, below_eq_map_found kinds c⟩, ?_⟩
  intro rules root hblocks honly q hrule
  refine ⟨fun vs hvs => filter_prefixes hblocks hrule hvs, ?_, q.nodup_report document.text⟩
  intro r hr howner p hpart hkind hprefixed
  have hstatement := honly.isStatement hr q howner
  have hkindOf : r.node.kind = q.owner := beq_iff_eq.1 (Bool.and_eq_true_iff.1 howner).2
  refine ⟨r, ⟨List.mem_filter.2 ⟨hr, hstatement⟩,
    PrefixSearch.mem_map_report.2 ⟨hkindOf, ⟨hpart, hkind⟩, hprefixed⟩⟩, ?_⟩
  rintro s ⟨hs, hreport⟩
  obtain ⟨hs, hsstatement⟩ := List.mem_filter.1 hs
  obtain ⟨-, ⟨hspart, -⟩, -⟩ := PrefixSearch.mem_map_report.1 hreport
  exact hblocks.eq_of_mem_parts hs hr hsstatement hstatement (mem_parts_iff.2 hspart)
    (mem_parts_iff.2 hpart)

/-! ### Two sheets -/

/-- A sheet with a pseudo-element around a pseudo-class, and a rule in a rule. -/
def nestedText : Text := "a:-o-b::-o-c\x7bd\x7be:-o-f\x7d\x7d".toList

/-- The tree of this sheet. -/
def nestedSheet : Node :=
  let inner := .construct "pseudo_class_selector" 0 6
    [.construct "tag_name" 0 1, .token ":" 1, .construct "class_name" 2 6]
  let outer := .construct "pseudo_element_selector" 0 12
    [inner, .token "::" 6, .construct "tag_name" 8 12]
  let declaration := .construct "declaration" 15 21
    [.construct "property_name" 15 16, .token ":" 16, .construct "plain_value" 17 21]
  let rule := .construct "rule_set" 13 22
    [.construct "selectors" 13 14 [.construct "tag_name" 13 14],
     .construct "block" 14 22 [.token "\x7b" 14, declaration, .token "\x7d" 21]]
  .construct "stylesheet" 0 23
    [.construct "rule_set" 0 23
      [.construct "selectors" 0 12 [outer],
       .construct "block" 12 23 [.token "\x7b" 12, rule, .token "\x7d" 22]]]

/-- The parser that knows this sheet. -/
def nestedTrees : ParseTable := [⟨.css, nestedText, none, ⟨false, nestedSheet⟩⟩]

/-- Both names in the selector are reported at the outer rule, the outer one first. -/
theorem reportedOnce_nestedSheet :
    BlocksInStatements nestedSheet ∧ OnlyStatements nestedSheet ∧
      PrefixSearch.rule .selectors ∈ Rule.all ∧
      (statements nestedSheet).map (fun s =>
          (s.node.start, (PrefixSearch.report .selectors nestedText s).map (·.2.span))) =
        [(0, [⟨6, 12⟩, ⟨1, 6⟩]), (13, []), (15, [])] ∧
      ReportsOnce .selectors nestedTrees.parser
        (Checker.style.document nestedTrees.parser ⟨"a.css"⟩ nestedText) Rule.all {}
        nestedSheet := by
  have hblocks : BlocksInStatements nestedSheet := by decide
  have honly : OnlyStatements nestedSheet := by decide
  exact ⟨hblocks, honly, Rule.mem_all _, by decide +kernel,
    (prefixes_reportedOnce nestedTrees.parser
      (Checker.style.document nestedTrees.parser ⟨"a.css"⟩ nestedText) {}).2 hblocks honly
      .selectors (Rule.mem_all _)⟩

/-- A sheet that asks for a pseudo-element and for a value. -/
def supportsText : Text :=
  "@supports selector(::-moz-a) \x7b\x7d\n@supports (b: -moz-c) \x7b\x7d".toList

/-- The tree of this sheet. -/
def supportsSheet : Node :=
  let pseudo := .construct "pseudo_element_selector" 19 27
    [.token "::" 19, .construct "tag_name" 21 27]
  let feature := .construct "feature_query" 42 53
    [.token "(" 42, .construct "feature_name" 43 44, .token ":" 44,
     .construct "plain_value" 46 52, .token ")" 52]
  .construct "stylesheet" 0 56
    [.construct "supports_statement" 0 31
      [.token "@supports" 0,
       .construct "selector_query" 10 28
        [.token "selector" 10, .token "(" 18, pseudo, .token ")" 27],
       .construct "block" 29 31 [.token "\x7b" 29, .token "\x7d" 30]],
     .construct "supports_statement" 32 56
      [.token "@supports" 32, feature,
       .construct "block" 54 56 [.token "\x7b" 54, .token "\x7d" 55]]]

/-- What a condition of a sheet asks for is part of no style rule and of no declaration, and is
not reported. -/
theorem not_reported_supportsSheet :
    BlocksInStatements supportsSheet ∧ OnlyStatements supportsSheet ∧
      ∀ q : PrefixSearch, ¬ ∀ p ∈ (ofRoot supportsSheet).all, p.node.isNamed = true →
        p.node.kind ∈ q.kinds → q.isPrefixed supportsText p.node = true →
          ∃! s, s ∈ statements supportsSheet ∧
            p ∈ (q.report supportsText s).map (·.1) := by
  refine ⟨by decide, by decide, fun q h => ?_⟩
  have hnone : ∀ s ∈ statements supportsSheet, q.report supportsText s = [] := by
    cases q <;> decide +kernel
  have hsome : ∃ p ∈ (ofRoot supportsSheet).all, p.node.isNamed = true ∧ p.node.kind ∈ q.kinds ∧
      q.isPrefixed supportsText p.node = true := by
    cases q <;> decide +kernel
  obtain ⟨p, hp, hnamed, hkind, hprefixed⟩ := hsome
  obtain ⟨s, ⟨hs, hreport⟩, -⟩ := h p hp hnamed hkind hprefixed
  rw [hnone s hs] at hreport
  cases hreport

end StyleCheck
end WebLint
