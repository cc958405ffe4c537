import Mathlib.Data.List.Pairwise
import WebLint.Proofs.Text.Cut
import WebLint.Text.Indent
import WebLint.Tree.Cursor

/-!
# Where the nodes of a tree stand

A parser places the nodes of a tree in the text it has parsed: each covers a
range of the text, inside the range of its parent and behind the siblings in
front of it.  Nodes of different subtrees then never overlap, and neither does
what a walk collects in them.

What is proved here:

* `induction` — a property passes from the children of a node to the node;
* `IsPlaced.within` — what is below a node lies in its range;
* `Cursor.pairwise_namedPlacesBelow` — a relation between nodes in order holds
  between all the named nodes below a node when it holds between those below each
  child, and between those of different children.
-/

namespace WebLint

namespace Node

/-! ## Nodes below a node -/

mutual

/-- A property that passes from the children of a node to the node holds of all
nodes. -/
theorem induction {motive : Node → Prop}
    (step : ∀ l cs, (∀ c ∈ cs, motive c) → motive (.mk l cs)) : ∀ n, motive n
  | .mk l cs => step l cs (inductionAll step cs)

theorem inductionAll {motive : Node → Prop}
    (step : ∀ l cs, (∀ c ∈ cs, motive c) → motive (.mk l cs)) : ∀ cs : List Node,
    ∀ c ∈ cs, motive c
  | [] => fun _ hc => absurd hc List.not_mem_nil
  | n :: ns => List.forall_mem_cons.2 ⟨induction step n, inductionAll step ns⟩

end

theorem preorderAll_eq_flatMap (ns : List Node) : preorderAll ns = ns.flatMap preorder := by
  induction ns with
  | nil => rfl
  | cons n ns ih => rw [preorderAll, ih, List.flatMap_cons]

theorem preorder_eq (n : Node) : n.preorder = n :: n.children.flatMap preorder := by
  obtain ⟨l, cs⟩ := n
  rw [preorder, preorderAll_eq_flatMap]
  rfl

theorem mem_preorder {n root : Node} :
    n ∈ root.preorder ↔ n = root ∨ ∃ c ∈ root.children, n ∈ c.preorder := by
  rw [preorder_eq, List.mem_cons, List.mem_flatMap]

theorem self_mem_preorder (n : Node) : n ∈ n.preorder := mem_preorder.2 (Or.inl rfl)

theorem mem_preorder_of_child {n c root : Node} (hc : c ∈ root.children) (hn : n ∈ c.preorder) :
    n ∈ root.preorder :=
  mem_preorder.2 (Or.inr ⟨c, hc, hn⟩)

/-- What is below something below a node is below the node. -/
theorem mem_preorder_trans {n m root : Node} (hm : m ∈ root.preorder) (hn : n ∈ m.preorder) :
    n ∈ root.preorder := by
  induction root using induction with
  | step l cs ih =>
    rcases mem_preorder.1 hm with rfl | ⟨c, hc, hm⟩
    · exact hn
    · exact mem_preorder_of_child hc (ih c hc hm)

/-! ## Ranges -/

/-- Whether the nodes of a tree stand in a text as a parser places them. -/
structure IsPlaced (t : Text) (root : Node) : Prop where
  /-- No node ends in front of its start. -/
  ordered : ∀ n ∈ root.preorder, n.start ≤ n.stop
  /-- Nodes start and end between characters of the text. -/
  boundary : ∀ n ∈ root.preorder, t.isBoundary n.start = true ∧ t.isBoundary n.stop = true
  /-- A node lies in its parent. -/
  nested : ∀ n ∈ root.preorder, ∀ c ∈ n.children, n.start ≤ c.start ∧ c.stop ≤ n.stop
  /-- Siblings follow each other. -/
  siblings : ∀ n ∈ root.preorder, n.children.Pairwise fun a b => a.stop ≤ b.start

instance (t : Text) (root : Node) : Decidable (root.IsPlaced t) :=
  decidable_of_iff
    ((∀ n ∈ root.preorder, n.start ≤ n.stop) ∧
      (∀ n ∈ root.preorder, t.isBoundary n.start = true ∧ t.isBoundary n.stop = true) ∧
      (∀ n ∈ root.preorder, ∀ c ∈ n.children, n.start ≤ c.start ∧ c.stop ≤ n.stop) ∧
      ∀ n ∈ root.preorder, n.children.Pairwise fun a b => a.stop ≤ b.start)
    ⟨fun ⟨ho, hb, hn, hs⟩ => ⟨ho, hb, hn, hs⟩, fun ⟨ho, hb, hn, hs⟩ => ⟨ho, hb, hn, hs⟩⟩

namespace IsPlaced

variable {t : Text} {root n m : Node}

theorem below (h : root.IsPlaced t) (hn : n ∈ root.preorder) : n.IsPlaced t where
  ordered m hm := h.ordered m (mem_preorder_trans hn hm)
  boundary m hm := h.boundary m (mem_preorder_trans hn hm)
  nested m hm := h.nested m (mem_preorder_trans hn hm)
  siblings m hm := h.siblings m (mem_preorder_trans hn hm)

theorem child (h : root.IsPlaced t) (hn : n ∈ root.children) : n.IsPlaced t :=
  h.below (mem_preorder_of_child hn (self_mem_preorder n))

/-- What is below a node lies in its range. -/
theorem within (h : root.IsPlaced t) (hn : n ∈ root.preorder) :
    root.start ≤ n.start ∧ n.stop ≤ root.stop := by
  induction root using induction with
  | step l cs ih =>
    rcases mem_preorder.1 hn with rfl | ⟨c, hc, hn⟩
    · exact ⟨Nat.le_refl _, Nat.le_refl _⟩
    · have hchild := h.nested _ (self_mem_preorder _) c hc
      have hbelow := ih c hc (h.child hc) hn
      omega

/-- What is below different children of a node, stands in the order of these. -/
theorem stop_le_start {a b : Node} (h : root.IsPlaced t) (ha : a ∈ root.children)
    (hb : b ∈ root.children) (hab : a.stop ≤ b.start) (hn : n ∈ a.preorder)
    (hm : m ∈ b.preorder) : n.stop ≤ m.start := by
  have hna := (h.child ha).within hn
  have hmb := (h.child hb).within hm
  omega

/-- Different children of a node are apart. -/
theorem apart_of_ne {a b : Node} (h : root.IsPlaced t) (ha : a ∈ root.children)
    (hb : b ∈ root.children) (hne : a ≠ b) : a.stop ≤ b.start ∨ b.stop ≤ a.start := by
  have hsymm : Std.Symm fun a b : Node => a.stop ≤ b.start ∨ b.stop ≤ a.start :=
    ⟨fun _ _ hab => hab.symm⟩
  have hsiblings : root.children.Pairwise fun a b => a.stop ≤ b.start ∨ b.stop ≤ a.start :=
    (h.siblings root (self_mem_preorder root)).imp Or.inl
  exact hsiblings.forall ha hb hne

end IsPlaced

/-- Whether a node is free of blanks at its start. -/
def StartsUnblank (t : Text) (n : Node) : Prop :=
  ∀ c ∈ (n.text t).head?, Indent.isBlank c = false

instance (t : Text) (n : Node) : Decidable (n.StartsUnblank t) :=
  decidable_of_iff ((n.text t).head?.all (fun c => !Indent.isBlank c) = true)
    (by simp [StartsUnblank, Option.all_eq_true])

/-- Where a node starts, unless it covers nothing, there is no blank. -/
theorem StartsUnblank.isBlank_head {t : Text} {root n : Node} (h : n.StartsUnblank t)
    (hplaced : root.IsPlaced t) (hn : n ∈ root.preorder) (hlt : n.start < n.stop) :
    ∀ c ∈ (t.dropBytes n.start).head?, Indent.isBlank c = false := by
  obtain ⟨hstart, hstop⟩ := hplaced.boundary n hn
  have hpiece : n.text t = t.between n.start n.stop :=
    Text.slice_eq_between t hstart (Nat.le_of_lt hlt)
  obtain ⟨d, rest, hfirst, hdrop⟩ := Text.exists_between_eq_cons hlt hstart hstop
  intro c hc
  rw [hdrop] at hc
  rw [StartsUnblank, hpiece, hfirst] at h
  exact h c hc

end Node

/-! ## Walks -/

namespace Cursor

open Node

/-- What a walk below a node comes by. -/
theorem mem_namedPlacesBelow_iff {parent : Node} {above : List Step} {index : Nat}
    {ns : List Node} {c : Cursor} : c ∈ namedPlacesBelow parent above index ns ↔
      ∃ i n, ns[i]? = some n ∧ n.isNamed = true ∧
        c ∈ namedPlaces (⟨parent, index + i⟩ :: above) n := by
  induction ns generalizing index with
  | nil => simp [namedPlacesBelow]
  | cons n ns ih =>
    rw [namedPlacesBelow, List.mem_append, ih]
    constructor
    · rintro (h | ⟨i, m, hm, hnamed, h⟩)
      · split at h
        · exact ⟨0, n, rfl, ‹_›, h⟩
        · cases h
      · refine ⟨i + 1, m, hm, hnamed, ?_⟩
        rwa [← Nat.add_assoc, Nat.add_right_comm]
    · rintro ⟨i, m, hm, hnamed, h⟩
      cases i with
      | zero =>
        obtain rfl := Option.some.inj hm
        rw [if_pos hnamed]
        exact Or.inl h
      | succ i =>
        refine Or.inr ⟨i, m, hm, hnamed, ?_⟩
        rwa [← Nat.add_assoc, Nat.add_right_comm] at h

/-- A walk below a node goes through its named children. -/
theorem mem_namedPlacesBelow {parent : Node} {above : List Step} {index : Nat} {ns : List Node}
    {c : Cursor} (h : c ∈ namedPlacesBelow parent above index ns) :
    ∃ n ∈ ns, n.isNamed = true ∧ ∃ above', c ∈ namedPlaces above' n := by
  obtain ⟨i, n, hn, hnamed, hc⟩ := mem_namedPlacesBelow_iff.1 h
  exact ⟨n, List.mem_of_getElem? hn, hnamed, _, hc⟩

/-- A walk stays in the tree. -/
theorem node_mem_preorder {root : Node} {above : List Step} {c : Cursor}
    (h : c ∈ namedPlaces above root) : c.node ∈ root.preorder := by
  induction root using induction generalizing above with
  | step l cs ih =>
    rw [namedPlaces, List.mem_cons] at h
    rcases h with rfl | h
    · exact self_mem_preorder _
    · obtain ⟨n, hn, -, above', hc⟩ := mem_namedPlacesBelow h
      exact mem_preorder_of_child hn (ih n hn hc)

/-- A relation holds between the nodes of a walk below a node, in order, when it
holds between those below each child and between those below different ones. -/
theorem pairwise_namedPlacesBelow {R : Cursor → Cursor → Prop} {parent : Node}
    {above : List Step} {index : Nat} {ns : List Node}
    (hsame : ∀ n ∈ ns, ∀ above', (namedPlaces above' n).Pairwise R)
    (hother : ns.Pairwise fun n m => ∀ above₁ above₂, ∀ c ∈ namedPlaces above₁ n,
      ∀ d ∈ namedPlaces above₂ m, R c d) :
    (namedPlacesBelow parent above index ns).Pairwise R := by
  induction ns generalizing index with
  | nil => exact .nil
  | cons n ns ih =>
    obtain ⟨hn, hrest⟩ := List.forall_mem_cons.1 hsame
    obtain ⟨hnext, hothers⟩ := List.pairwise_cons.1 hother
    rw [namedPlacesBelow, List.pairwise_append]
    refine ⟨?_, ih hrest hothers, ?_⟩
    · split
      · exact hn _
      · exact .nil
    · intro c hc d hd
      split at hc
      · obtain ⟨m, hm, -, above', hd⟩ := mem_namedPlacesBelow hd
        exact hnext m hm _ above' c hc d hd
      · cases hc

end Cursor

end WebLint
