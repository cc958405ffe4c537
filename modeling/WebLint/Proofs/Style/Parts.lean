import WebLint.Proofs.Style.Statements
import WebLint.Proofs.Tree.Constructs

/-!
# The parts of a statement

The rules about vendor prefixes search a statement for names.  The search goes from a construct
to those it is made of and stops at blocks, which hold statements of their own.  What it comes
by are the *parts* of the statement.

What is proved here:

* `mem_parts_iff` — the parts of a construct are the constructs below it, but for blocks below
  it and what is below those;
* `sublist_parts`, `nodup_parts` — the search comes by them in the order of the tree, once each;
* `below_eq_map_found`, `isSearch_found` — it finds those of the kinds it looks for;
* `BlocksInStatements.eq_of_mem_parts` — nothing is part of two statements.
-/

namespace WebLint
namespace StyleCheck

open Node Cursor
open VendorPrefix (holdsStatements)

variable {c d e : Cursor}

/-! ## Parts -/

/-- Whether a search enters a node: a construct that is no block. -/
def isEntered (n : Node) : Bool := n.isNamed && !holdsStatements n.kind

theorem isBlock_eq_false_of_isEntered {n : Node} (h : isEntered n = true) : isBlock n = false := by
  rw [isEntered, Bool.and_eq_true, Bool.not_eq_true'] at h
  rw [isBlock, h.2, Bool.and_false]

mutual

/-- The parts of a node at their places, each before its own parts. -/
def partPlaces (above : List Step) : Node → List Cursor
  | .mk l cs => partPlacesAmong (.mk l cs) above 0 cs

/-- The parts of `parent` among and below its children from the one with number `index` on. -/
def partPlacesAmong (parent : Node) (above : List Step) (index : Nat) : List Node → List Cursor
  | [] => []
  | n :: ns =>
    (if isEntered n then ⟨n, ⟨parent, index⟩ :: above⟩ :: partPlaces (⟨parent, index⟩ :: above) n
    else []) ++ partPlacesAmong parent above (index + 1) ns

end

/-- The parts of what is at a place. -/
def parts (c : Cursor) : List Cursor := partPlaces c.above c.node

/-- The parts of a place are the children that a search enters, each with its own parts. -/
theorem parts_eq (c : Cursor) :
    parts c = (c.children.filter fun d => isEntered d.node).flatMap fun d => d :: parts d := by
  obtain ⟨⟨l, cs⟩, above⟩ := c
  have hamong : ∀ (ns : List Node) (index : Nat),
      partPlacesAmong (.mk l cs) above index ns =
        ((ns.mapIdx fun i n => (⟨n, ⟨.mk l cs, index + i⟩ :: above⟩ : Cursor)).filter
          fun d => isEntered d.node).flatMap fun d => d :: parts d := by
    intro ns
    induction ns with
    | nil => intro index; rfl
    | cons n ns ih =>
      intro index
      rw [partPlacesAmong, ih, List.mapIdx_cons, List.filter_cons]
      split <;> simp [parts, Nat.add_comm, Nat.add_left_comm]
  rw [parts, partPlaces, children_mk, hamong]
  simp

theorem mem_parts : d ∈ parts c ↔
    ∃ e ∈ c.children, isEntered e.node = true ∧ (d = e ∨ d ∈ parts e) := by
  rw [parts_eq, List.mem_flatMap]
  simp only [List.mem_filter, List.mem_cons, and_assoc]

/-- The search comes by the parts of a place in the order of the constructs below it. -/
theorem sublist_parts (c : Cursor) : (parts c).Sublist c.constructs.tail := by
  induction c using Cursor.induction with
  | step c ih =>
    have hchildren : ∀ ds : List Cursor, (∀ d ∈ ds, (parts d).Sublist d.constructs.tail) →
        ((ds.filter fun d => isEntered d.node).flatMap fun d => d :: parts d).Sublist
          ((ds.filter (·.node.isNamed)).flatMap constructs) := by
      intro ds hds
      induction ds with
      | nil => exact List.Sublist.refl _
      | cons d ds ih =>
        obtain ⟨hd, hrest⟩ := List.forall_mem_cons.1 hds
        have hwhole : (d :: parts d).Sublist d.constructs := by
          rw [constructs_eq] at hd ⊢
          exact hd.cons_cons d
        rw [List.filter_cons, List.filter_cons]
        cases hnamed : d.node.isNamed with
        | false => simpa [isEntered, hnamed] using ih hrest
        | true =>
          rw [if_pos rfl, List.flatMap_cons]
          split
          · rw [List.flatMap_cons]
            exact hwhole.append (ih hrest)
          · exact (ih hrest).trans (List.sublist_append_right _ _)
    rw [parts_eq, constructs_eq, List.tail_cons]
    exact hchildren c.children ih

/-- It comes by each of them once. -/
theorem nodup_parts (c : Cursor) : (parts c).Nodup :=
  (nodup_constructs c).sublist ((sublist_parts c).trans (List.tail_sublist _))

/-- Whether one place is part of another: a construct below it that is neither a block nor
below a block that is below it. -/
def IsPart (c d : Cursor) : Prop :=
  d ∈ c.constructs.tail ∧ ∀ e ∈ c.constructs.tail, isBlock e.node = true → d ∉ e.constructs

/-- The search comes by the parts of a place. -/
theorem mem_parts_iff : d ∈ parts c ↔ IsPart c d := by
  induction c using Cursor.induction with
  | step c ih =>
    constructor
    · intro hd
      refine ⟨(sublist_parts c).subset hd, fun b hb hblock hdb => ?_⟩
      obtain ⟨e, he, hentered, hde⟩ := mem_parts.1 hd
      obtain ⟨f, hf, -, hbf⟩ := mem_tail_constructs.1 hb
      -- the block is below the same child of the place
      have hdall : d ∈ e.all := by
        rcases hde with rfl | hde
        · exact self_mem_all d
        · exact (sublist_all e).subset (List.mem_of_mem_tail ((sublist_parts e).subset hde))
      obtain rfl : e = f := eq_of_mem_all_of_mem_children he hf hdall
        (mem_all_trans ((sublist_all f).subset hbf) ((sublist_all b).subset hdb))
      rcases mem_constructs.1 hbf with rfl | hbf
      · rw [isBlock_eq_false_of_isEntered hentered] at hblock
        cases hblock
      rcases hde with rfl | hde
      · exact not_mem_all_of_mem_tail hbf ((sublist_all b).subset hdb)
      · exact ((ih e he).1 hde).2 b hbf hblock hdb
    · rintro ⟨hd, hblocks⟩
      obtain ⟨e, he, hnamed, hde⟩ := mem_tail_constructs.1 hd
      have hin : ∀ f ∈ e.constructs, f ∈ c.constructs.tail := fun f hf =>
        mem_tail_constructs.2 ⟨e, he, hnamed, hf⟩
      have hentered : isEntered e.node = true := by
        cases hholds : holdsStatements e.node.kind with
        | false => simp [isEntered, hnamed, hholds]
        | true =>
          exact absurd hde (hblocks e (hin e (mem_constructs.2 (Or.inl rfl)))
            (by simp [isBlock, hnamed, hholds]))
      refine mem_parts.2 ⟨e, he, hentered, ?_⟩
      rcases mem_constructs.1 hde with rfl | hde
      · exact Or.inl rfl
      · exact Or.inr ((ih e he).2 ⟨hde, fun b hb => hblocks b (hin b (List.mem_of_mem_tail hb))⟩)

/-! ## The search -/

/-- What a search for some kinds finds in a node. -/
theorem below_eq_flatMap (kinds : List String) (n : Node) : VendorPrefix.below kinds n =
    n.children.flatMap fun m => if isEntered m then
      (if kinds.contains m.kind then [m] else []) ++ VendorPrefix.below kinds m else [] := by
  obtain ⟨l, cs⟩ := n
  rw [VendorPrefix.below]
  induction cs with
  | nil => rfl
  | cons m ms ih =>
    rw [VendorPrefix.among, ih]
    rfl

/-- The places where a search for some kinds finds something. -/
def found (kinds : List String) (c : Cursor) : List Cursor :=
  (parts c).filter fun d => kinds.contains d.node.kind

/-- A search finds the parts of the kinds it looks for. -/
theorem below_eq_map_found (kinds : List String) (c : Cursor) :
    VendorPrefix.below kinds c.node = (found kinds c).map (·.node) := by
  unfold found
  induction c using Cursor.induction with
  | step c ih =>
    rw [below_eq_flatMap, flatMap_node_children, parts_eq]
    generalize c.children = ds at ih
    induction ds with
    | nil => rfl
    | cons d ds ihds =>
      obtain ⟨hd, hrest⟩ := List.forall_mem_cons.1 ih
      rw [List.flatMap_cons, ihds hrest, List.filter_cons]
      cases hentered : isEntered d.node with
      | false => rfl
      | true =>
        rw [if_pos rfl, if_pos rfl, List.flatMap_cons, List.filter_append, List.map_append, hd,
          List.filter_cons]
        split <;> rfl

theorem mem_found {kinds : List String} :
    d ∈ found kinds c ↔ IsPart c d ∧ d.node.kind ∈ kinds := by
  rw [found, List.mem_filter, mem_parts_iff, List.contains_iff_mem]

/-- Whether some places are the parts of a construct that are of some kinds, each once and in
the order of the tree. -/
structure IsSearch (kinds : List String) (c : Cursor) (ds : List Cursor) : Prop where
  /-- They are the parts of those kinds. -/
  mem : ∀ d, d ∈ ds ↔ IsPart c d ∧ d.node.kind ∈ kinds
  /-- They stand in the order of the tree. -/
  order : ds.Sublist c.constructs.tail
  /-- None of them comes twice. -/
  nodup : ds.Nodup

theorem isSearch_found (kinds : List String) (c : Cursor) : IsSearch kinds c (found kinds c) where
  mem _ := mem_found
  order := List.filter_sublist.trans (sublist_parts c)
  nodup := (nodup_parts c).filter _

/-! ## Parts of statements -/

/-- The parent of a part of a place is the place or another part of it. -/
theorem parent?_of_mem_parts (h : d ∈ parts c) :
    ∃ p, d.parent? = some p ∧ d ∈ p.children ∧ (p = c ∨ p ∈ parts c) := by
  induction c using Cursor.induction with
  | step c ih =>
    obtain ⟨e, he, hentered, rfl | hd⟩ := mem_parts.1 h
    · exact ⟨c, parent?_of_mem_children he, he, Or.inl rfl⟩
    · obtain ⟨p, hp, hchild, hpart⟩ := ih e he hd
      exact ⟨p, hp, hchild, Or.inr (mem_parts.2 ⟨e, he, hentered, hpart⟩)⟩

theorem isEntered_of_mem_parts (h : d ∈ parts c) : isEntered d.node = true := by
  induction c using Cursor.induction with
  | step c ih =>
    obtain ⟨e, he, hentered, rfl | hd⟩ := mem_parts.1 h
    · exact hentered
    · exact ih e he hd

namespace BlocksInStatements

variable {root : Node} {r s : Cursor} (h : BlocksInStatements root)
include h

/-- A part of a statement is no statement itself. -/
theorem not_isStatement_of_mem_parts (hs : s ∈ (ofRoot root).all)
    (hstatement : isStatement s = true) (hd : d ∈ parts s) : isStatement d = false := by
  obtain ⟨p, -, hchild, rfl | hp⟩ := parent?_of_mem_parts hd
  · rw [isStatement, isInside_of_mem_children hchild,
      h.isContainer_of_isStatement hs hstatement, Bool.and_false]
  · obtain ⟨q, -, hq, -⟩ := parent?_of_mem_parts hp
    rw [isStatement, isInside_of_mem_children hchild, isContainer_of_mem_children hq,
      isBlock_eq_false_of_isEntered (isEntered_of_mem_parts hp), Bool.and_false]

/-- Nothing is part of two statements. -/
theorem eq_of_mem_parts (hr : r ∈ (ofRoot root).all) (hs : s ∈ (ofRoot root).all)
    (hrstatement : isStatement r = true) (hsstatement : isStatement s = true)
    (hdr : d ∈ parts r) (hds : d ∈ parts s) : r = s := by
  obtain ⟨n, above⟩ := d
  induction above generalizing n with
  | nil =>
    obtain ⟨p, hp, -⟩ := parent?_of_mem_parts hdr
    cases hp
  | cons step above ih =>
    obtain ⟨p, hp, -, hpr⟩ := parent?_of_mem_parts hdr
    obtain ⟨q, hq, -, hqs⟩ := parent?_of_mem_parts hds
    obtain rfl := Option.some.inj hp
    obtain rfl := Option.some.inj hq
    rcases hpr with rfl | hpr <;> rcases hqs with rfl | hqs
    · rfl
    · rw [h.not_isStatement_of_mem_parts hs hsstatement hqs] at hrstatement
      cases hrstatement
    · rw [h.not_isStatement_of_mem_parts hr hrstatement hpr] at hsstatement
      cases hsstatement
    · exact ih _ hpr hqs

end BlocksInStatements

end StyleCheck
end WebLint
