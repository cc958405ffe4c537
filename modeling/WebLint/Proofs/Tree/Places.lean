import Mathlib.Data.List.Find
import WebLint.Proofs.Tree.Placement

/-!
# Places in a tree

A cursor stands in a tree when its way up, child by child, leads to the root.  What a
cursor knows of the tree around it can then be said of the tree as a whole: the leaves of
the tree are those in front of the node, those of the node, and those of the trees that
follow it.

What is proved here:

* `IsIn.leaves_eq` — the leaves of a tree, as seen from a place in it;
* `IsIn.nextToken?_eq` — the next token, told by where the leaves stand;
* `mem_namedPlaces` — a walk comes by every place whose nodes on the way are named;
* `IsPlaced.nested_of_overlap` — of two nodes that have bytes in common one is below the other.
-/

namespace WebLint

/-! ## Leaves -/

namespace Node

theorem leavesAll_append (ns ms : List Node) :
    leavesAll (ns ++ ms) = leavesAll ns ++ leavesAll ms := by
  induction ns with
  | nil => rfl
  | cons n ns ih => rw [List.cons_append, leavesAll, leavesAll, ih, List.append_assoc]

theorem mem_leavesAll {l : Node} {ns : List Node} : l ∈ leavesAll ns ↔ ∃ n ∈ ns, l ∈ n.leaves := by
  induction ns with
  | nil => simp [leavesAll]
  | cons n ns ih => simp [leavesAll, ih]

theorem leaves_eq_leavesAll {n : Node} (h : n.children ≠ []) : n.leaves = leavesAll n.children := by
  obtain ⟨l, cs⟩ := n
  cases cs with
  | nil => exact absurd rfl h
  | cons c cs => rfl

/-- A leaf of a tree is one of its nodes. -/
theorem mem_preorder_of_mem_leaves {l root : Node} (h : l ∈ root.leaves) : l ∈ root.preorder := by
  induction root using induction with
  | step label cs ih =>
    cases cs with
    | nil =>
      rw [leaves, List.mem_singleton] at h
      exact h ▸ self_mem_preorder _
    | cons c cs =>
      obtain ⟨n, hn, hl⟩ := (@mem_leavesAll l (c :: cs)).1 h
      exact mem_preorder_of_child hn (ih n hn hl)

/-- Whether a leaf covers some bytes and is no comment. -/
def isToken (l : Node) : Bool := l.kind != "comment" && l.start != l.stop

/-- The first token of a tree that starts at an offset or behind it. -/
def tokenFrom? (root : Node) (offset : Nat) : Option Node :=
  root.leaves.find? fun l => l.isToken && decide (offset ≤ l.start)

/-- Of two nodes that have bytes in common one is below the other. -/
theorem IsPlaced.nested_of_overlap {t : Text} {root n m : Node} (h : root.IsPlaced t)
    (hn : n ∈ root.preorder) (hm : m ∈ root.preorder) (hnm : n.start < m.stop)
    (hmn : m.start < n.stop) : n ∈ m.preorder ∨ m ∈ n.preorder := by
  induction root using induction with
  | step l cs ih =>
    rcases mem_preorder.1 hn with rfl | ⟨a, ha, hna⟩
    · exact Or.inr hm
    rcases mem_preorder.1 hm with rfl | ⟨b, hb, hmb⟩
    · exact Or.inl hn
    by_cases hab : a = b
    · subst hab
      exact ih a ha (h.child ha) hna hmb
    · have hwithin := (h.child ha).within hna
      have hwithin' := (h.child hb).within hmb
      have hapart := h.apart_of_ne ha hb hab
      omega

end Node

/-! ## The way up -/

namespace Cursor

open Node

/-- Whether the way up from a node leads to the root of a tree. -/
def LeadsTo (root : Node) : Node → List Step → Prop
  | n, [] => n = root
  | n, s :: above => s.parent.children[s.index]? = some n ∧ LeadsTo root s.parent above

/-- Whether a cursor stands in a tree. -/
def IsIn (root : Node) (c : Cursor) : Prop := LeadsTo root c.node c.above

/-- The place of the last child. -/
theorem getLast?_children (c : Cursor) : c.children.getLast? =
    c.node.children.getLast?.map fun n => ⟨n, ⟨c.node, c.node.children.length - 1⟩ :: c.above⟩ := by
  rw [children, List.getLast?_eq_getElem?, List.getElem?_mapIdx, List.length_mapIdx,
    List.getLast?_eq_getElem?]

/-- The trees in front of the node along the way up, from the first one on. -/
def preceding (c : Cursor) : List Node :=
  c.above.reverse.flatMap fun s => s.parent.children.take s.index

theorem preceding_cons (n : Node) (s : Step) (above : List Step) :
    preceding ⟨n, s :: above⟩ = preceding ⟨s.parent, above⟩ ++ s.parent.children.take s.index := by
  simp [preceding]

theorem following_cons (n : Node) (s : Step) (above : List Step) :
    following ⟨n, s :: above⟩ =
      s.parent.children.drop (s.index + 1) ++ following ⟨s.parent, above⟩ := rfl

/-- A child stands between the children in front of it and those behind. -/
theorem children_eq_append {ns : List Node} {i : Nat} {n : Node} (h : ns[i]? = some n) :
    ns = ns.take i ++ n :: ns.drop (i + 1) := by
  obtain ⟨hi, rfl⟩ := List.getElem?_eq_some_iff.1 h
  rw [List.getElem_cons_drop, List.take_append_drop]

namespace LeadsTo

variable {t : Text} {root n : Node} {above : List Step}

theorem mem_preorder (h : LeadsTo root n above) : n ∈ root.preorder := by
  induction above generalizing n with
  | nil =>
    rw [show n = root from h]
    exact self_mem_preorder root
  | cons s above ih =>
    exact mem_preorder_trans (ih h.2)
      (mem_preorder_of_child (List.mem_of_getElem? h.1) (self_mem_preorder n))

/-- The leaves of a tree, as seen from a place in it. -/
theorem leaves_eq (h : LeadsTo root n above) :
    root.leaves =
      leavesAll (preceding ⟨n, above⟩) ++ (n.leaves ++ leavesAll (following ⟨n, above⟩)) := by
  induction above generalizing n with
  | nil =>
    rw [show n = root from h]
    exact (List.append_nil _).symm
  | cons s above ih =>
    have hne : s.parent.children ≠ [] := by
      intro hnil
      have hchild := h.1
      rw [hnil] at hchild
      cases hchild
    have hparent : s.parent.leaves = leavesAll (s.parent.children.take s.index) ++
        (n.leaves ++ leavesAll (s.parent.children.drop (s.index + 1))) := by
      rw [leaves_eq_leavesAll hne, ← leavesAll, ← leavesAll_append, ← children_eq_append h.1]
    rw [ih h.2, hparent, preceding_cons, following_cons, leavesAll_append, leavesAll_append]
    simp only [List.append_assoc]

/-- The trees in front of a place end where its node starts, or before. -/
theorem stop_le_start_of_mem_preceding (h : LeadsTo root n above) (hplaced : root.IsPlaced t)
    {m : Node} (hm : m ∈ preceding ⟨n, above⟩) : m ∈ root.preorder ∧ m.stop ≤ n.start := by
  induction above generalizing n with
  | nil => cases hm
  | cons s above ih =>
    have hparent := h.2.mem_preorder
    have hchild := List.mem_of_getElem? h.1
    rw [preceding_cons, List.mem_append] at hm
    rcases hm with hm | hm
    · obtain ⟨hmem, hstop⟩ := ih h.2 hm
      have hnested := hplaced.nested _ hparent n hchild
      exact ⟨hmem, by omega⟩
    · have hsiblings := hplaced.siblings _ hparent
      rw [children_eq_append h.1, List.pairwise_append] at hsiblings
      exact ⟨mem_preorder_trans hparent
        (mem_preorder_of_child (List.mem_of_mem_take hm) (self_mem_preorder m)),
        hsiblings.2.2 m hm n List.mem_cons_self⟩

/-- The trees that follow a place start where its node ends, or behind. -/
theorem stop_le_start_of_mem_following (h : LeadsTo root n above) (hplaced : root.IsPlaced t)
    {m : Node} (hm : m ∈ following ⟨n, above⟩) : m ∈ root.preorder ∧ n.stop ≤ m.start := by
  induction above generalizing n with
  | nil => cases hm
  | cons s above ih =>
    have hparent := h.2.mem_preorder
    have hchild := List.mem_of_getElem? h.1
    rw [following_cons, List.mem_append] at hm
    rcases hm with hm | hm
    · have hsiblings := hplaced.siblings _ hparent
      rw [children_eq_append h.1, List.pairwise_append, List.pairwise_cons] at hsiblings
      exact ⟨mem_preorder_trans hparent
        (mem_preorder_of_child (List.mem_of_mem_drop hm) (self_mem_preorder m)),
        hsiblings.2.1.1 m hm⟩
    · obtain ⟨hmem, hstop⟩ := ih h.2 hm
      have hnested := hplaced.nested _ hparent n hchild
      exact ⟨hmem, by omega⟩

end LeadsTo

namespace IsIn

variable {t : Text} {root : Node} {c : Cursor}

theorem node_mem (h : c.IsIn root) : c.node ∈ root.preorder := LeadsTo.mem_preorder h

/-- The leaves of a tree, as seen from a place in it. -/
theorem leaves_eq (h : c.IsIn root) :
    root.leaves = leavesAll c.preceding ++ (c.node.leaves ++ leavesAll c.following) :=
  LeadsTo.leaves_eq h

/-- A child of a place is a place. -/
theorem child (h : c.IsIn root) {i : Nat} {n : Node} (hn : c.node.children[i]? = some n) :
    IsIn root ⟨n, ⟨c.node, i⟩ :: c.above⟩ := ⟨hn, h⟩

/-- The last child of a place is a place. -/
theorem lastChild (h : c.IsIn root) {n : Node} (hn : c.node.children.getLast? = some n) :
    IsIn root ⟨n, ⟨c.node, c.node.children.length - 1⟩ :: c.above⟩ :=
  h.child (List.getLast?_eq_getElem? ▸ hn)

/-- The next token is the first one of the tree that starts behind the node. -/
theorem nextToken?_eq (h : c.IsIn root) (hplaced : root.IsPlaced t) :
    c.nextToken? = root.tokenFrom? c.node.stop := by
  have hordered := hplaced.ordered _ h.node_mem
  -- a token that ends in front of the node's end does not start behind it
  have hfront : ∀ l ∈ root.preorder, l.stop ≤ c.node.stop →
      ¬ (l.isToken && decide (c.node.stop ≤ l.start)) = true := by
    intro l hl hstop
    have hle := hplaced.ordered l hl
    simp only [isToken, Bool.and_eq_true, bne_iff_ne, decide_eq_true_eq, not_and]
    omega
  have hpreceding : (leavesAll c.preceding).find?
      (fun l => l.isToken && decide (c.node.stop ≤ l.start)) = none := by
    refine List.find?_eq_none.2 fun l hl => ?_
    obtain ⟨m, hm, hl⟩ := mem_leavesAll.1 hl
    have hl := mem_preorder_of_mem_leaves hl
    obtain ⟨hmem, hstop⟩ := LeadsTo.stop_le_start_of_mem_preceding h hplaced hm
    have hwithin := (hplaced.below hmem).within hl
    exact hfront l (mem_preorder_trans hmem hl) (by omega)
  have hown : c.node.leaves.find?
      (fun l => l.isToken && decide (c.node.stop ≤ l.start)) = none := by
    refine List.find?_eq_none.2 fun l hl => ?_
    have hl := mem_preorder_of_mem_leaves hl
    exact hfront l (mem_preorder_trans h.node_mem hl) ((hplaced.below h.node_mem).within hl).2
  rw [tokenFrom?, h.leaves_eq, List.find?_append, hpreceding, Option.none_or, List.find?_append,
    hown, Option.none_or]
  refine List.find?_congr fun l hl => ?_
  obtain ⟨m, hm, hl⟩ := mem_leavesAll.1 hl
  obtain ⟨hmem, hstop⟩ := LeadsTo.stop_le_start_of_mem_following h hplaced hm
  have hwithin := (hplaced.below hmem).within (mem_preorder_of_mem_leaves hl)
  rw [decide_eq_true (by omega), Bool.and_true]
  rfl

end IsIn

/-! ## Walks -/

/-- A walk that comes by a node comes by its named children. -/
theorem child_mem_namedPlaces {root n : Node} {above : List Step} {c : Cursor} {i : Nat}
    (h : c ∈ namedPlaces above root) (hn : c.node.children[i]? = some n)
    (hnamed : n.isNamed = true) : ⟨n, ⟨c.node, i⟩ :: c.above⟩ ∈ namedPlaces above root := by
  induction root using induction generalizing above with
  | step l cs ih =>
    rw [namedPlaces, List.mem_cons] at h ⊢
    rcases h with rfl | h
    · refine Or.inr (mem_namedPlacesBelow_iff.2 ⟨i, n, hn, hnamed, ?_⟩)
      rw [Nat.zero_add]
      obtain ⟨l', cs'⟩ := n
      rw [namedPlaces]
      exact List.mem_cons_self
    · obtain ⟨j, m, hm, hmnamed, h⟩ := mem_namedPlacesBelow_iff.1 h
      exact Or.inr (mem_namedPlacesBelow_iff.2
        ⟨j, m, hm, hmnamed, ih m (List.mem_of_getElem? hm) h⟩)

/-- A walk comes by every named place, when nodes that are not named have no children. -/
theorem mem_namedPlaces {root : Node} {c : Cursor} (h : c.IsIn root)
    (htokens : ∀ n ∈ root.preorder, n.isNamed = false → n.children = [])
    (hnamed : c.node.isNamed = true) : c ∈ namedPlaces [] root := by
  obtain ⟨n, above⟩ := c
  induction above generalizing n with
  | nil =>
    rw [show n = root from h]
    obtain ⟨l, cs⟩ := root
    rw [namedPlaces]
    exact List.mem_cons_self
  | cons s above ih =>
    have hparent : s.parent.isNamed = true := by
      cases hs : s.parent.isNamed with
      | true => rfl
      | false =>
        have hchild := h.1
        rw [htokens _ (LeadsTo.mem_preorder h.2) hs] at hchild
        cases hchild
    exact child_mem_namedPlaces (ih s.parent h.2 hparent) h.1 hnamed

end Cursor
end WebLint
