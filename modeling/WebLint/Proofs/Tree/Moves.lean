import WebLint.Proofs.Tree.Placement

/-!
# Trees that move

When a text changes but its structure does not, the nodes of its tree get other
ranges and nothing else.  As long as these compare to a place in the new text as the
old ones did to a place in the old text, a search for this place goes the same way.

What is proved here:

* `narrow_mapSpan` — the search for the smallest node at a place;
* `spanning_covers` — which goes through nodes that cover the place;
* `widen_mapSpan` — the search for the largest node that starts there.
-/

namespace WebLint

namespace Node

mutual

/-- A tree with other ranges. -/
def mapSpan (g : Span → Span) : Node → Node
  | .mk l cs => .mk { l with span := g l.span } (mapSpanAll g cs)

/-- Trees with other ranges. -/
def mapSpanAll (g : Span → Span) : List Node → List Node
  | [] => []
  | n :: ns => n.mapSpan g :: mapSpanAll g ns

end

variable {g : Span → Span} {n : Node}

theorem mapSpanAll_eq_map (ns : List Node) : mapSpanAll g ns = ns.map (mapSpan g) := by
  induction ns with
  | nil => rfl
  | cons n ns ih => rw [mapSpanAll, ih, List.map_cons]

@[simp] theorem children_mapSpan : (n.mapSpan g).children = n.children.map (mapSpan g) := by
  obtain ⟨l, cs⟩ := n
  rw [mapSpan, children, mapSpanAll_eq_map]
  rfl

@[simp] theorem kind_mapSpan : (n.mapSpan g).kind = n.kind := by
  obtain ⟨l, cs⟩ := n
  rfl

@[simp] theorem field_mapSpan : (n.mapSpan g).field = n.field := by
  obtain ⟨l, cs⟩ := n
  rfl

@[simp] theorem isNamed_mapSpan : (n.mapSpan g).isNamed = n.isNamed := by
  obtain ⟨l, cs⟩ := n
  rfl

@[simp] theorem namedChildren_mapSpan :
    (n.mapSpan g).namedChildren = n.namedChildren.map (mapSpan g) := by
  rw [namedChildren, children_mapSpan, List.filter_map]
  simp only [Function.comp_def, isNamed_mapSpan]
  rfl

@[simp] theorem span_mapSpan : (n.mapSpan g).span = g n.span := by
  obtain ⟨l, cs⟩ := n
  rfl

theorem start_mapSpan : (n.mapSpan g).start = (g n.span).start := by rw [start, span_mapSpan]

theorem stop_mapSpan : (n.mapSpan g).stop = (g n.span).stop := by rw [stop, span_mapSpan]

/-- Whether a node covers the byte behind an offset. -/
def Covers (n : Node) (p : Nat) : Prop := n.start ≤ p ∧ p < n.stop

end Node

/-- A step with other ranges. -/
def Step.mapSpan (g : Span → Span) (s : Step) : Step := ⟨s.parent.mapSpan g, s.index⟩

namespace Cursor

open Node

/-- A node at its place in a tree with other ranges. -/
def mapSpan (g : Span → Span) (c : Cursor) : Cursor :=
  ⟨c.node.mapSpan g, c.above.map (Step.mapSpan g)⟩

variable {g : Span → Span} {c : Cursor}

@[simp] theorem node_mapSpan : (c.mapSpan g).node = c.node.mapSpan g := rfl

@[simp] theorem above_mapSpan : (c.mapSpan g).above = c.above.map (Step.mapSpan g) := rfl

@[simp] theorem ancestors_mapSpan :
    (c.mapSpan g).ancestors = c.ancestors.map (Node.mapSpan g) := by
  simp [ancestors, Step.mapSpan, Function.comp_def]

@[simp] theorem isLastChild_mapSpan : (c.mapSpan g).isLastChild = c.isLastChild := by
  obtain ⟨n, above⟩ := c
  cases above with
  | nil => rfl
  | cons s above => simp [isLastChild, Step.mapSpan]

@[simp] theorem fills_mapSpan (name : String) : (c.mapSpan g).fills name = c.fills name := by
  obtain ⟨n, above⟩ := c
  cases above with
  | nil => rfl
  | cons s above => simp [fills, Step.mapSpan, List.findIdx?_map, Function.comp_def]

/-! ## The smallest node at a place -/

variable {p p' : Nat} {root : Node}

/-- Whether a node with another range compares to the place `p'` as it did to the place
`p`. -/
def Follows (g : Span → Span) (p p' : Nat) (n : Node) : Prop :=
  ((g n.span).stop ≤ p' ↔ n.stop ≤ p) ∧ (p < n.stop → ((g n.span).start ≤ p' ↔ n.start ≤ p))

/-- The search for the smallest node that spans one byte goes the same way. -/
theorem narrow_mapSpan (h : ∀ n ∈ root.preorder, Follows g p p' n) (above : List Step) :
    narrow p' (p' + 1) (above.map (Step.mapSpan g)) (root.mapSpan g) =
      (narrow p (p + 1) above root).mapSpan g := by
  induction root using Node.induction generalizing above with
  | step l cs ih =>
    have hbelow : ∀ (ns : List Node) (index : Nat) (parent : Node), (∀ n ∈ ns, n ∈ cs) →
        narrowBelow p' (p' + 1) (parent.mapSpan g) (above.map (Step.mapSpan g)) index
          (ns.map (Node.mapSpan g)) =
          (narrowBelow p (p + 1) parent above index ns).map (Cursor.mapSpan g) := by
      intro ns
      induction ns with
      | nil => intros; rfl
      | cons n ns ihns =>
        intro index parent hns
        obtain ⟨hn, hns⟩ := List.forall_mem_cons.1 hns
        obtain ⟨hstop, hstart⟩ := h n (mem_preorder_of_child hn (self_mem_preorder n))
        have htest : (decide ((g n.span).stop < p' + 1) || decide ((g n.span).stop ≤ p')) =
            (decide (n.stop < p + 1) || decide (n.stop ≤ p)) := by
          rw [Bool.eq_iff_iff]
          simp only [Bool.or_eq_true, decide_eq_true_eq]
          omega
        rw [List.map_cons, narrowBelow, narrowBelow, start_mapSpan, stop_mapSpan, htest]
        split
        · exact ihns (index + 1) parent hns
        · rename_i hstop'
          have hlt : p < n.stop := by
            simp only [Bool.or_eq_true, decide_eq_true_eq] at hstop'
            omega
          simp only [hstart hlt]
          split
          · exact congrArg some (ih n hn
              (fun m hm => h m (mem_preorder_of_child hn hm)) (⟨parent, index⟩ :: above))
          · rfl
    rw [Node.mapSpan, narrow, narrow, mapSpanAll_eq_map]
    have hcs := hbelow cs 0 (.mk l cs) fun n hn => hn
    rw [Node.mapSpan, mapSpanAll_eq_map] at hcs
    rw [hcs]
    cases narrowBelow p (p + 1) (.mk l cs) above 0 cs with
    | none => simp [Cursor.mapSpan, Node.mapSpan, mapSpanAll_eq_map]
    | some c => rfl

/-- A child that is entered covers the place. -/
theorem exists_of_narrowBelow {parent : Node} {above : List Step} {index : Nat} {ns : List Node}
    (h : narrowBelow p (p + 1) parent above index ns = some c) :
    ∃ n ∈ ns, n.Covers p ∧ ∃ i, c = narrow p (p + 1) (⟨parent, i⟩ :: above) n := by
  induction ns generalizing index with
  | nil => cases h
  | cons n ns ih =>
    rw [narrowBelow] at h
    split at h
    · obtain ⟨m, hm, hc⟩ := ih h
      exact ⟨m, List.mem_cons_of_mem n hm, hc⟩
    rename_i hstop
    simp only [Bool.or_eq_true, decide_eq_true_eq] at hstop
    split at h
    · rename_i hstart
      exact ⟨n, List.mem_cons_self, ⟨hstart, by omega⟩, index, (Option.some.inj h).symm⟩
    · cases h

/-- The search goes through nodes that cover the place. -/
theorem narrow_covers {t : Text} (hplaced : root.IsPlaced t) (hroot : root.Covers p)
    (above : List Step) :
    ∃ steps, (narrow p (p + 1) above root).above = steps ++ above ∧
      ∀ n ∈ (narrow p (p + 1) above root).node :: steps.map (·.parent),
        n ∈ root.preorder ∧ n.Covers p := by
  induction root using Node.induction generalizing above with
  | step l cs ih =>
    have hself : Node.mk l cs ∈ (Node.mk l cs).preorder ∧ (Node.mk l cs).Covers p :=
      ⟨self_mem_preorder _, hroot⟩
    rw [narrow]
    cases hc : narrowBelow p (p + 1) (.mk l cs) above 0 cs with
    | none =>
      refine ⟨[], rfl, fun n hn => ?_⟩
      rw [List.mem_singleton.1 hn]
      exact hself
    | some c =>
      obtain ⟨n, hn, hcovers, i, rfl⟩ := exists_of_narrowBelow hc
      obtain ⟨steps, habove, hsteps⟩ := ih n hn (hplaced.child hn) hcovers (⟨.mk l cs, i⟩ :: above)
      refine ⟨steps ++ [⟨.mk l cs, i⟩], ?_, fun m hm => ?_⟩
      · rw [Option.getD_some, habove, List.append_assoc, List.singleton_append]
      · rw [List.map_append, ← List.cons_append, List.mem_append] at hm
        rcases hm with hm | hm
        · exact ⟨mem_preorder_of_child hn (hsteps m hm).1, (hsteps m hm).2⟩
        · rw [List.mem_singleton.1 hm]
          exact hself

/-- Unless it ends at the root, the search for the smallest node goes through nodes that
cover the place. -/
theorem spanning_covers {t : Text} (hplaced : root.IsPlaced t) :
    (spanning root p (p + 1)).above = [] ∨
      ∀ n ∈ (spanning root p (p + 1)).node :: (spanning root p (p + 1)).ancestors,
        n ∈ root.preorder ∧ n.Covers p := by
  by_cases hroot : root.Covers p
  · obtain ⟨steps, habove, hsteps⟩ := narrow_covers hplaced hroot []
    rw [List.append_nil] at habove
    rw [ancestors, spanning, habove]
    exact Or.inr hsteps
  · refine Or.inl ?_
    obtain ⟨l, cs⟩ := root
    rw [spanning, narrow]
    cases hc : narrowBelow p (p + 1) (.mk l cs) [] 0 cs with
    | none => rfl
    | some c =>
      -- a child that covers the place lies in the root
      obtain ⟨n, hn, hcovers, -⟩ := exists_of_narrowBelow hc
      obtain ⟨hstart, hstop⟩ := hplaced.nested _ (self_mem_preorder _) n hn
      exact absurd ⟨Nat.le_trans hstart hcovers.1, Nat.lt_of_lt_of_le hcovers.2 hstop⟩ hroot

/-! ## The largest node that starts at a place -/

/-- The search for the largest node that starts at a place ends at a node that starts
there, below a node that does not, or below the program. -/
theorem widen_spec {node : Node} (above : List Step) (hnode : node.start = p) :
    (widen node above).node.start = p ∧
      ∀ s ∈ (widen node above).above.head?, s.parent ∈ above.map (·.parent) ∧
        (s.parent.start ≠ p ∨ s.parent.kind = "program") := by
  induction above generalizing node with
  | nil => exact ⟨hnode, fun s hs => by cases hs⟩
  | cons s above ih =>
    rw [widen]
    split
    · rename_i htop
      rw [hnode] at htop
      refine ⟨hnode, fun r hr => ?_⟩
      obtain rfl := Option.some.inj hr
      exact ⟨List.mem_cons_self, htop⟩
    · rename_i htop
      have hsame : s.parent.start = p := by
        rw [← hnode]
        exact Decidable.byContradiction fun h => htop (Or.inl h)
      obtain ⟨hstart, hparent⟩ := ih hsame
      refine ⟨hstart, fun r hr => ?_⟩
      obtain ⟨hmem, hr⟩ := hparent r hr
      exact ⟨List.mem_cons_of_mem _ hmem, hr⟩

/-- The search for the largest node that starts at a place goes the same way. -/
theorem widen_mapSpan {node : Node} (above : List Step) (hnode : node.start = p)
    (h : ∀ n ∈ node :: above.map (·.parent), (g n.span).start = p' ↔ n.start = p) :
    widen (node.mapSpan g) (above.map (Step.mapSpan g)) = (widen node above).mapSpan g := by
  induction above generalizing node with
  | nil => rfl
  | cons s above ih =>
    obtain ⟨hnodes, hparent, habove⟩ : ((g node.span).start = p' ↔ node.start = p) ∧
        ((g s.parent.span).start = p' ↔ s.parent.start = p) ∧
        ∀ n ∈ above.map (·.parent), (g n.span).start = p' ↔ n.start = p := by
      simpa using h
    have htest : (s.parent.mapSpan g).start ≠ (node.mapSpan g).start ↔
        s.parent.start ≠ node.start := by
      rw [start_mapSpan, start_mapSpan, hnodes.2 hnode, hnode, ne_eq, hparent]
    rw [List.map_cons, widen, widen]
    simp only [Step.mapSpan, kind_mapSpan, htest]
    split
    · rfl
    · rename_i htop
      refine ih ?_ (List.forall_mem_cons.2 ⟨hparent, habove⟩)
      rw [← hnode]
      exact Decidable.byContradiction fun h => htop (Or.inl h)

end Cursor
end WebLint
