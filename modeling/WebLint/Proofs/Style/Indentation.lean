import WebLint.Proofs.Checker.Independence
import WebLint.Proofs.Document
import WebLint.Proofs.Style.Layout

/-!
# The indentation of a stylesheet

The rule about indentation looks at each spot of a sheet on its own.  What it finds is
repaired by indenting lines of the regions, each once, and the spots of a sheet move along
with its tree.

What is proved here:

* `StyleCheck.spots_mapSpan` — the spots of a tree that has moved;
* `filter_indentation` — what a check finds about indentation is what this rule finds;
* `reindents_repairs` — it repairs the indentation of lines, each once.
-/

namespace WebLint

open Fixing

/-! ## Spots that move -/

namespace StyleCheck

/-- A spot in a tree with other ranges. -/
def Spot.mapSpan (g : Span → Span) : Spot → Spot
  | .statement depth n => .statement depth (n.mapSpan g)
  | .brace depth n => .brace depth (n.mapSpan g)

section

variable {g : Span → Span}

@[simp] theorem Spot.depth_mapSpan (s : Spot) : (s.mapSpan g).depth = s.depth := by
  cases s <;> rfl

@[simp] theorem Spot.node_mapSpan (s : Spot) : (s.mapSpan g).node = s.node.mapSpan g := by
  cases s <;> rfl

/-- The spots that a node is about move along with it. -/
theorem spotsOf_mapSpan (depth : Nat) (n : Node) :
    spotsOf depth (n.mapSpan g) = (spotsOf depth n).map (Spot.mapSpan g) ∧
      blockSpots depth (n.mapSpan g) = (blockSpots depth n).map (Spot.mapSpan g) := by
  induction n using Node.induction generalizing depth with
  | step l cs ih =>
    constructor
    · unfold spotsOf
      rw [Node.isNamed_mapSpan, Node.kind_mapSpan, Node.children_mapSpan,
        innerSpots_eq_flatMap, innerSpots_eq_flatMap, List.flatMap_map]
      split
      · rw [List.map_cons, List.map_flatMap]
        exact congrArg _ (List.flatMap_congr fun c hc => (ih c hc depth).2)
      split
      · rfl
      · rfl
    · unfold blockSpots
      rw [Node.isNamed_mapSpan, Node.kind_mapSpan, Node.children_mapSpan, spots_eq_flatMap,
        spots_eq_flatMap, List.flatMap_map]
      split
      · rw [List.map_flatMap]
        exact List.flatMap_congr fun c hc => (ih c hc (depth + 1)).1
      · rfl

/-- The spots of a sheet move along with its tree. -/
theorem spots_mapSpan (root : Node) :
    spots 0 (root.mapSpan g).children = (spots 0 root.children).map (Spot.mapSpan g) := by
  rw [Node.children_mapSpan, spots_eq_flatMap, spots_eq_flatMap, List.flatMap_map,
    List.map_flatMap]
  exact List.flatMap_congr fun c _ => (spotsOf_mapSpan 0 c).1

end

end StyleCheck

namespace StyleIndentation

open StyleCheck

variable {d : Document} {o : RuleOptions} {root : Node}

/-! ## What the rule finds -/

/-- What the rule finds at a spot. -/
def ofSpot (d : Document) (o : RuleOptions) (s : Spot) : Option Violation :=
  ofNode d o.styleSpaces s.depth s.node

/-- What the rule finds in a sheet. -/
def violations (d : Document) (o : RuleOptions) (root : Node) : List Violation :=
  (spots 0 root.children).filterMap (ofSpot d o)

/-- The repairs of what the rule finds in a sheet. -/
abbrev repairs (d : Document) (o : RuleOptions) (root : Node) : List Fix :=
  (violations d o root).filterMap (·.fix)

/-- Alone, the rule looks at each spot. -/
theorem violationsAt_alone (s : Spot) :
    violationsAt d [.indentation] o s = (ofSpot d o s).toList := by
  cases s with
  | brace depth n => rfl
  | statement depth n =>
    simp [violationsAt, prefixViolations, whenEnabled, ofSpot, Spot.depth, Spot.node]

/-- What a check finds about indentation, if it is to look for it, is what the rule
finds. -/
theorem filter_indentation {parser : Parser} {rules : RuleSet} {vs : List Violation}
    (h : (StyleCheck.violations parser d rules o root).value = .ok vs) :
    vs.filter (·.rule == .indentation) = whenEnabled rules .indentation (violations d o root) := by
  rw [filter_violations (by decide) violationsAt_alone h, violations,
    List.filterMap_eq_flatMap_toList]

/-! ## What is repaired -/

section

variable (hplaced : root.IsPlaced d.text) (hstand : SpotsStand d.text root)
include hplaced hstand

/-- Each repair indents a spot. -/
theorem exists_spot_of_mem {f : Fix} (hf : f ∈ repairs d o root) :
    ∃ s ∈ spots 0 root.children, f.Indents d.text ∧ f.stop = s.node.start ∧
      d.contains f.start f.stop = true ∧
      f.content = Indent.spaces (expected d o.styleSpaces s.depth s.node) := by
  obtain ⟨v, hv, hf⟩ := List.mem_filterMap.1 hf
  obtain ⟨s, hs, hv⟩ := List.mem_filterMap.1 hv
  obtain ⟨-, g, hg, hin, hcontent⟩ := ofNode_eq_some hv
  obtain rfl := Option.some.inj (hg.symm.trans hf)
  obtain ⟨-, hindents, hstop⟩ := indents_of_ofNode hplaced (node_mem_preorder_of_mem_spots hs)
    (hstand s hs).1 (hstand s hs).2 hv hg
  exact ⟨s, hs, hindents, hstop, hin, hcontent⟩

/-- What is found at a spot is repaired in front of it. -/
theorem exists_fix_of_ofSpot {s : Spot} (hs : s ∈ spots 0 root.children) {v : Violation}
    (hv : ofSpot d o s = some v) :
    ∃ f ∈ repairs d o root, f.Indents d.text ∧ f.stop = s.node.start := by
  obtain ⟨-, f, hf, -⟩ := ofNode_eq_some hv
  obtain ⟨-, hindents, hstop⟩ := indents_of_ofNode hplaced (node_mem_preorder_of_mem_spots hs)
    (hstand s hs).1 (hstand s hs).2 hv hf
  exact ⟨f, List.mem_filterMap.2 ⟨v, List.mem_filterMap.2 ⟨s, hs, hv⟩, hf⟩, hindents, hstop⟩

variable (hopen : BlocksOpen root)
include hopen

/-- A spot is told by where it starts. -/
theorem spot_eq_of_start_eq {s r : Spot} (hs : s ∈ spots 0 root.children)
    (hr : r ∈ spots 0 root.children) (heq : s.node.start = r.node.start) : s = r := by
  have hbefore := pairwise_spots hplaced hopen fun s hs => (hstand s hs).1
  have hne : (spots 0 root.children).Pairwise fun s r => s.node.start ≠ r.node.start :=
    hbefore.imp fun h => Nat.ne_of_lt h.1
  have hsymm : Std.Symm fun s r : Spot => s.node.start ≠ r.node.start := ⟨fun _ _ h => h.symm⟩
  exact Classical.byContradiction fun hsr => hne.forall hs hr hsr heq

/-- What the rule repairs is the indentation of lines, each once. -/
theorem reindents_repairs : Reindents d.text (repairs d o root) := by
  refine ⟨fun f hf => ?_, ?_⟩
  · obtain ⟨s, hs, hindents, -⟩ := exists_spot_of_mem hplaced hstand hf
    exact hindents
  rw [repairs, List.pairwise_filterMap, violations, List.pairwise_filterMap]
  refine (pairwise_spots hplaced hopen fun s hs => (hstand s hs).1).imp_of_mem
    fun {s r} hs hr hsr v hv w hw f hf g hg heq => ?_
  obtain ⟨-, hindents, hstop⟩ := indents_of_ofNode hplaced (node_mem_preorder_of_mem_spots hs)
    (hstand s hs).1 (hstand s hs).2 hv hf
  obtain ⟨-, hindents', hstop'⟩ := indents_of_ofNode hplaced (node_mem_preorder_of_mem_spots hr)
    (hstand r hr).1 (hstand r hr).2 hw hg
  -- the same line, so its blanks would end at both spots
  have hsame := hindents.1.stop_eq (heq ▸ hindents'.1)
  have hlt := hsr.1
  omega

end

end StyleIndentation
end WebLint
