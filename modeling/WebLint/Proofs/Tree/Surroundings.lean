import Mathlib.Data.List.Basic
import WebLint.Proofs.Tree.Places

/-!
# What stands around the nodes of a tree

All the nodes of a tree at their places, tokens included.  What is said of a node by where
it stands, such as that it is directly in a block or how many blocks are around it, is said
of its place.

What is proved here:

* `all_eq` — the places below a place are itself and those below its children;
* `induction` — a property passes from the children of a place to the place, and
  `IsIn.induction` from a place to its children;
* `mem_all_ofRoot` — the places below the root of a tree are those in the tree;
* `pairwise_all` — a place ends in front of a later one, unless the later one is below it.
-/

namespace WebLint
namespace Cursor

open Node

/-! ## All places -/

mutual

/-- The places below a node, each before those of its children. -/
def places (above : List Step) : Node → List Cursor
  | .mk l cs => ⟨.mk l cs, above⟩ :: placesAmong (.mk l cs) above 0 cs

/-- The places below the children of `parent` from the one with number `index` on. -/
def placesAmong (parent : Node) (above : List Step) (index : Nat) : List Node → List Cursor
  | [] => []
  | n :: ns => places (⟨parent, index⟩ :: above) n ++ placesAmong parent above (index + 1) ns

end

/-- The places below a place, itself included. -/
def all (c : Cursor) : List Cursor := places c.above c.node

/-- The place of the root of a tree. -/
def ofRoot (root : Node) : Cursor := ⟨root, []⟩

theorem children_mk (l : Label) (cs : List Node) (above : List Step) :
    children ⟨.mk l cs, above⟩ = cs.mapIdx fun i n => ⟨n, ⟨.mk l cs, i⟩ :: above⟩ := rfl

@[simp] theorem map_node_children (c : Cursor) : c.children.map (·.node) = c.node.children := by
  refine List.ext_getElem (by simp [children]) fun i hi hi' => ?_
  simp [children]

/-- The places below a place are itself and those below its children. -/
theorem all_eq (c : Cursor) : c.all = c :: c.children.flatMap all := by
  obtain ⟨⟨l, cs⟩, above⟩ := c
  have hamong : ∀ (ns : List Node) (index : Nat),
      placesAmong (.mk l cs) above index ns =
        (ns.mapIdx fun i n => (⟨n, ⟨.mk l cs, index + i⟩ :: above⟩ : Cursor)).flatMap all := by
    intro ns
    induction ns with
    | nil => simp [placesAmong]
    | cons n ns ih =>
      intro index
      rw [placesAmong, ih, List.mapIdx_cons, List.flatMap_cons]
      simp [all, Nat.add_comm, Nat.add_left_comm]
  rw [all, places, children_mk, hamong]
  simp

/-- A property that passes from the children of a place to the place holds of all places. -/
theorem induction {motive : Cursor → Prop}
    (step : ∀ c : Cursor, (∀ d ∈ c.children, motive d) → motive c) (c : Cursor) : motive c := by
  obtain ⟨n, above⟩ := c
  induction n using Node.induction generalizing above with
  | step l cs ih =>
    refine step _ fun d hd => ?_
    rw [children_mk] at hd
    obtain ⟨i, hi, rfl⟩ := List.mem_mapIdx.1 hd
    exact ih _ (List.getElem_mem hi) _

theorem self_mem_all (c : Cursor) : c ∈ c.all := by
  rw [all_eq]
  exact List.mem_cons_self

theorem mem_all {c d : Cursor} : d ∈ c.all ↔ d = c ∨ ∃ e ∈ c.children, d ∈ e.all := by
  rw [all_eq, List.mem_cons, List.mem_flatMap]

/-- The nodes at the places below a place. -/
theorem map_node_all (c : Cursor) : c.all.map (·.node) = c.node.preorder := by
  induction c using induction with
  | step c ih =>
    rw [all_eq, List.map_cons, List.map_flatMap, preorder_eq, ← map_node_children,
      List.flatMap_map]
    exact congrArg _ (List.flatMap_congr ih)

theorem node_mem_preorder_of_mem_all {c d : Cursor} (h : d ∈ c.all) :
    d.node ∈ c.node.preorder := by
  rw [← map_node_all]
  exact List.mem_map_of_mem h

/-- What is found at and below a place. -/
theorem filterMap_all {α : Type} (f : Cursor → Option α) (c : Cursor) :
    c.all.filterMap f = (f c).toList ++ c.children.flatMap fun d => d.all.filterMap f := by
  rw [all_eq, List.filterMap_cons, List.filterMap_flatMap]
  cases f c with
  | none => rfl
  | some a => rfl

/-- Walking through the children of a node is walking through those of its place. -/
theorem flatMap_node_children {α : Type} (f : Node → List α) (c : Cursor) :
    c.node.children.flatMap f = c.children.flatMap fun d => f d.node := by
  rw [← map_node_children, List.flatMap_map]

/-! ## Parents and children -/

section

variable {root : Node} {c d p : Cursor}

/-- The children of a place have it as their parent. -/
theorem parent?_of_mem_children (h : d ∈ c.children) : d.parent? = some c := by
  obtain ⟨i, hi, rfl⟩ := List.mem_mapIdx.1 h
  rfl

theorem above_of_mem_children (h : d ∈ c.children) :
    ∃ i, d.above = ⟨c.node, i⟩ :: c.above := by
  obtain ⟨i, hi, rfl⟩ := List.mem_mapIdx.1 h
  exact ⟨i, rfl⟩

theorem ancestors_of_mem_children (h : d ∈ c.children) : d.ancestors = c.node :: c.ancestors := by
  obtain ⟨i, hi⟩ := above_of_mem_children h
  simp [ancestors, hi]

theorem node_mem_of_mem_children (h : d ∈ c.children) : d.node ∈ c.node.children := by
  rw [← map_node_children]
  exact List.mem_map_of_mem h

theorem IsIn.of_mem_children (hc : c.IsIn root) (h : d ∈ c.children) : d.IsIn root := by
  obtain ⟨i, hi, rfl⟩ := List.mem_mapIdx.1 h
  exact hc.child (List.getElem?_eq_getElem hi)

theorem IsIn.parent (hc : c.IsIn root) (h : c.parent? = some p) :
    p.IsIn root ∧ c ∈ p.children := by
  obtain ⟨n, above⟩ := c
  cases above with
  | nil => cases h
  | cons s above =>
    obtain rfl := Option.some.inj h
    obtain ⟨hchild, hparent⟩ := hc
    obtain ⟨hi, hn⟩ := List.getElem?_eq_some_iff.1 hchild
    exact ⟨hparent, List.mem_mapIdx.2 ⟨s.index, hi, by simp only [hn]⟩⟩

/-- What is below a place has what is around the place around it, and the place itself unless
it is the place. -/
theorem ancestors_of_mem_all (h : d ∈ c.all) :
    (d = c ∨ c.node ∈ d.ancestors) ∧ ∀ a ∈ c.ancestors, a ∈ d.ancestors := by
  induction c using induction with
  | step c ih =>
    rcases mem_all.1 h with rfl | ⟨e, he, hd⟩
    · exact ⟨Or.inl rfl, fun a ha => ha⟩
    · obtain ⟨hself, hrest⟩ := ih e he hd
      rw [ancestors_of_mem_children he] at hrest
      exact ⟨Or.inr (hrest _ List.mem_cons_self),
        fun a ha => hrest a (List.mem_cons_of_mem _ ha)⟩

theorem IsIn.of_mem_all (hc : c.IsIn root) (h : d ∈ c.all) : d.IsIn root := by
  induction c using induction with
  | step c ih =>
    rcases mem_all.1 h with rfl | ⟨e, he, hd⟩
    · exact hc
    · exact ih e he (hc.of_mem_children he) hd

/-- A walk comes by all that is below what it comes by. -/
theorem mem_all_of_mem_children (h : c ∈ p.all) (hd : d ∈ c.children) : d ∈ p.all := by
  induction p using induction with
  | step p ih =>
    rcases mem_all.1 h with rfl | ⟨e, he, hc⟩
    · exact mem_all.2 (Or.inr ⟨d, hd, self_mem_all d⟩)
    · exact mem_all.2 (Or.inr ⟨e, he, ih e he hc⟩)

/-- What is below something below a place is below the place. -/
theorem mem_all_trans (h : c ∈ p.all) (hd : d ∈ c.all) : d ∈ p.all := by
  induction p using induction with
  | step p ih =>
    rcases mem_all.1 h with rfl | ⟨e, he, hc⟩
    · exact hd
    · exact mem_all.2 (Or.inr ⟨e, he, ih e he hc⟩)

/-- A property that passes from a place to its children holds of all places in a tree when it
holds of the root. -/
theorem IsIn.induction {motive : Cursor → Prop} (top : motive (ofRoot root))
    (step : ∀ p : Cursor, p.IsIn root → motive p → ∀ c ∈ p.children, motive c) (hc : c.IsIn root) :
    motive c := by
  obtain ⟨n, above⟩ := c
  induction above generalizing n with
  | nil =>
    obtain rfl : n = root := hc
    exact top
  | cons s above ih =>
    obtain ⟨hparent, hmem⟩ := hc.parent rfl
    exact step _ hparent (ih s.parent hparent) _ hmem

/-- The places below the root of a tree are those in the tree. -/
theorem mem_all_ofRoot : c ∈ (ofRoot root).all ↔ c.IsIn root := by
  constructor
  · intro h
    exact IsIn.of_mem_all (show (ofRoot root).IsIn root from rfl) h
  · intro h
    refine IsIn.induction (motive := (· ∈ (ofRoot root).all)) (self_mem_all _) ?_ h
    exact fun p _ hp d hd => mem_all_of_mem_children hp hd

end

/-! ## Order -/

/-- A place ends in front of a later one, unless the later one is below it. -/
theorem pairwise_all {t : Text} {c : Cursor} (h : c.node.IsPlaced t) :
    c.all.Pairwise fun d e => d.node ∈ e.ancestors ∨ d.node.stop ≤ e.node.start := by
  induction c using induction with
  | step c ih =>
    rw [all_eq, List.pairwise_cons, List.pairwise_flatMap]
    refine ⟨fun e he => ?_, fun d hd => ih d hd (h.child (node_mem_of_mem_children hd)), ?_⟩
    · obtain ⟨d, hd, he⟩ := List.mem_flatMap.1 he
      refine Or.inl ((ancestors_of_mem_all he).2 _ ?_)
      rw [ancestors_of_mem_children hd]
      exact List.mem_cons_self
    · have hsiblings := h.siblings c.node (self_mem_preorder c.node)
      rw [← map_node_children, List.pairwise_map] at hsiblings
      refine hsiblings.imp_of_mem fun {a b} ha hb hab d hd e he => Or.inr ?_
      exact h.stop_le_start (node_mem_of_mem_children ha) (node_mem_of_mem_children hb) hab
        (node_mem_preorder_of_mem_all hd) (node_mem_preorder_of_mem_all he)

end Cursor
end WebLint
