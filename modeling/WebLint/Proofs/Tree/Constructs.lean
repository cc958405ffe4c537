import Mathlib.Data.List.Nodup
import WebLint.Proofs.Tree.Surroundings

/-!
# The constructs of a tree

A walk through the constructs of a grammar goes from a node to its named children, and so on.
It comes by some of the places of the tree, in the order of all of them, and by none of them
twice.

What is proved here:

* `constructs_eq` — the constructs below a place are itself and those below its named children;
* `sublist_all` — a walk comes by its places in the order of all places;
* `nodup_all` — different places of a tree are told apart by the way up to the root.
-/

namespace WebLint
namespace Cursor

open Node

variable {root : Node} {c d : Cursor}

/-- The constructs below a place, each before those it is made of.  The place itself counts
whether named or not. -/
def constructs (c : Cursor) : List Cursor := namedPlaces c.above c.node

/-- The constructs below a place are itself and those below its named children. -/
theorem constructs_eq (c : Cursor) :
    c.constructs = c :: (c.children.filter (·.node.isNamed)).flatMap constructs := by
  obtain ⟨⟨l, cs⟩, above⟩ := c
  have hbelow : ∀ (ns : List Node) (index : Nat),
      namedPlacesBelow (.mk l cs) above index ns =
        ((ns.mapIdx fun i n => (⟨n, ⟨.mk l cs, index + i⟩ :: above⟩ : Cursor)).filter
          (·.node.isNamed)).flatMap constructs := by
    intro ns
    induction ns with
    | nil => intro index; rfl
    | cons n ns ih =>
      intro index
      rw [namedPlacesBelow, ih, List.mapIdx_cons, List.filter_cons]
      split <;> simp [constructs, Nat.add_comm, Nat.add_left_comm]
  rw [constructs, namedPlaces, children_mk, hbelow]
  simp

/-- The named children of a node, at their places. -/
theorem map_node_namedChildren (c : Cursor) :
    (c.children.filter (·.node.isNamed)).map (·.node) = c.node.namedChildren := by
  rw [namedChildren, ← map_node_children, List.filter_map]
  rfl

/-- A walk comes by its places in the order of all places. -/
theorem sublist_all (c : Cursor) : c.constructs.Sublist c.all := by
  induction c using induction with
  | step c ih =>
    have hchildren : ∀ ds : List Cursor, (∀ d ∈ ds, d.constructs.Sublist d.all) →
        ((ds.filter (·.node.isNamed)).flatMap constructs).Sublist (ds.flatMap all) := by
      intro ds hds
      induction ds with
      | nil => exact List.Sublist.refl _
      | cons d ds ih =>
        obtain ⟨hd, hrest⟩ := List.forall_mem_cons.1 hds
        rw [List.filter_cons, List.flatMap_cons]
        split
        · rw [List.flatMap_cons]
          exact hd.append (ih hrest)
        · exact (ih hrest).trans (List.sublist_append_right _ _)
    rw [constructs_eq, all_eq]
    exact (hchildren _ ih).cons_cons c

/-- The constructs below a place are the place and those behind it in the walk. -/
theorem mem_constructs : d ∈ c.constructs ↔ d = c ∨ d ∈ c.constructs.tail := by
  rw [constructs_eq, List.mem_cons, List.tail_cons]

theorem mem_tail_constructs : d ∈ c.constructs.tail ↔
    ∃ e ∈ c.children, e.node.isNamed = true ∧ d ∈ e.constructs := by
  rw [constructs_eq, List.tail_cons, List.mem_flatMap]
  simp only [List.mem_filter, and_assoc]

/-- The way up from what is below a place leads through the place. -/
theorem above_suffix_of_mem_all (h : d ∈ c.all) : c.above <:+ d.above := by
  induction c using induction with
  | step c ih =>
    rcases mem_all.1 h with rfl | ⟨e, he, hd⟩
    · exact List.suffix_rfl
    · obtain ⟨i, hi⟩ := above_of_mem_children he
      have hsuffix := ih e he hd
      rw [hi] at hsuffix
      exact (List.suffix_cons _ _).trans hsuffix

theorem ancestors_suffix_of_mem_all (h : d ∈ c.all) : c.ancestors <:+ d.ancestors :=
  (above_suffix_of_mem_all h).map _

/-- Around what is below a child of a place there is the place, and what is around it. -/
theorem exists_ancestors_of_mem_children {e : Cursor} (he : e ∈ c.children) (hd : d ∈ e.all) :
    d = e ∨ ∃ a outside, d.ancestors = a :: outside ∧ c.node ∈ outside := by
  rcases mem_all.1 hd with rfl | ⟨f, hf, hd⟩
  · exact Or.inl rfl
  · refine Or.inr ?_
    obtain ⟨front, hfront⟩ := ancestors_suffix_of_mem_all hd
    rw [ancestors_of_mem_children hf, ancestors_of_mem_children he] at hfront
    cases front with
    | nil => exact ⟨_, _, hfront.symm, List.mem_cons_self⟩
    | cons a front => exact ⟨a, _, hfront.symm, by simp⟩

/-- The places below a place are all different. -/
theorem nodup_all (c : Cursor) : c.all.Nodup := by
  induction c using induction with
  | step c ih =>
    have hindex : c.children.Pairwise fun d e => d.above ≠ e.above := by
      refine List.pairwise_iff_getElem.2 fun i j hi hj hij => ?_
      simp only [children, List.getElem_mapIdx, ne_eq, List.cons.injEq, Step.mk.injEq]
      omega
    rw [all_eq, List.nodup_cons, List.nodup_flatMap]
    refine ⟨fun hmem => ?_, ih, hindex.imp_of_mem ?_⟩
    · obtain ⟨d, hd, hc⟩ := List.mem_flatMap.1 hmem
      obtain ⟨i, hi⟩ := above_of_mem_children hd
      have hlength := (above_suffix_of_mem_all hc).length_le
      rw [hi, List.length_cons] at hlength
      omega
    · intro d e hd he hne f hfd hfe
      obtain ⟨i, hi⟩ := above_of_mem_children hd
      obtain ⟨j, hj⟩ := above_of_mem_children he
      have hlength : d.above.length = e.above.length := by rw [hi, hj]; rfl
      exact hne ((List.suffix_of_suffix_length_le (above_suffix_of_mem_all hfd)
        (above_suffix_of_mem_all hfe) (Nat.le_of_eq hlength)).eq_of_length hlength)

theorem nodup_constructs (c : Cursor) : c.constructs.Nodup :=
  (nodup_all c).sublist (sublist_all c)

/-- Nothing is below two children of a place. -/
theorem eq_of_mem_all_of_mem_children {e f : Cursor} (hd : d ∈ c.children) (he : e ∈ c.children)
    (hfd : f ∈ d.all) (hfe : f ∈ e.all) : d = e := by
  have hnodup := nodup_all c
  rw [all_eq, List.nodup_cons, List.nodup_flatMap] at hnodup
  have hsymm : Std.Symm fun d e : Cursor => List.Disjoint d.all e.all :=
    ⟨fun _ _ h _ he hd => h hd he⟩
  exact Classical.byContradiction fun hne => hnodup.2.2.forall hd he hne hfd hfe

/-- A place is not below a construct that is below it. -/
theorem not_mem_all_of_mem_tail (h : d ∈ c.constructs.tail) : c ∉ d.all := by
  intro hc
  obtain ⟨e, he, -, hd⟩ := mem_tail_constructs.1 h
  obtain ⟨i, hi⟩ := above_of_mem_children he
  have hle := (above_suffix_of_mem_all hc).length_le
  have hlt := (above_suffix_of_mem_all ((sublist_all e).subset hd)).length_le
  rw [hi, List.length_cons] at hlt
  omega

/-- What is around a place has children. -/
theorem children_ne_nil_of_mem_ancestors (h : c.IsIn root) {a : Node} (ha : a ∈ c.ancestors) :
    a.children ≠ [] := by
  obtain ⟨n, above⟩ := c
  induction above generalizing n with
  | nil => cases ha
  | cons s above ih =>
    rcases List.mem_cons.1 ha with rfl | ha
    · intro hnil
      have hchild := h.1
      rw [hnil] at hchild
      cases hchild
    · exact ih s.parent h.2 ha

/-- Leaves of a tree that stand at different places follow each other. -/
theorem pairwise_filter_all {t : Text} {p : Cursor → Bool} (hplaced : root.IsPlaced t)
    (hleaf : ∀ c ∈ (ofRoot root).all, p c = true → c.node.children = []) :
    ((ofRoot root).all.filter p).Pairwise fun c d => c.node.stop ≤ d.node.start := by
  refine ((pairwise_all (c := ofRoot root) hplaced).filter p).imp_of_mem fun {c d} hc hd h => ?_
  obtain ⟨hc, hp⟩ := List.mem_filter.1 hc
  rcases h with haround | hbefore
  · have hin := mem_all_ofRoot.1 (List.mem_filter.1 hd).1
    exact absurd (hleaf c hc hp) (children_ne_nil_of_mem_ancestors hin haround)
  · exact hbefore

end Cursor
end WebLint
