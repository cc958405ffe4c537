import WebLint.Proofs.Tree
import WebLint.Proofs.Tree.Surroundings

/-!
# The search for the next token

The next token can be searched for step by step, without a list of all that follows.  From a
place the search goes to the next sibling and down to its first leaf, or up to the parent when
there is no sibling.  A leaf that is a comment or covers no bytes does not count, and the
search goes on from there, deep in another part of the tree.

Each round that goes on leaves one place less to visit, when the places behind the current one
and those above it are counted together.  So the search ends, and it finds the first place in
the order of the tree that is behind the one it started from and counts.

What is proved here:

* `all_eq_append` — the places of a tree, as seen from one of them;
* `behind_eq_firstLeaf` — going down to the first leaf passes over no other leaf;
* `round_cases` — all that a round of the search can do;
* `search_eq` — the search ends, and with what;
* `nextToken?_eq_first` — the next token is the first token behind a place, and the search
  finds it in no more rounds than the tree has nodes.
-/

namespace WebLint

namespace Node

theorem leavesAll_eq_flatMap (ns : List Node) : leavesAll ns = ns.flatMap leaves := by
  induction ns with
  | nil => rfl
  | cons n ns ih => rw [leavesAll, ih, List.flatMap_cons]

/-- The leaves of a tree are those of its nodes that have no children. -/
theorem leaves_eq_filter (n : Node) : n.leaves = n.preorder.filter (·.children.isEmpty) := by
  induction n using induction with
  | step l cs ih =>
    rw [preorder, preorderAll_eq_flatMap, List.filter_cons]
    cases cs with
    | nil => rfl
    | cons c cs =>
      rw [leaves, ← leavesAll, leavesAll_eq_flatMap, List.filter_flatMap]
      exact List.flatMap_congr ih

theorem leavesAll_eq_filter (ns : List Node) :
    leavesAll ns = (preorderAll ns).filter (·.children.isEmpty) := by
  rw [leavesAll_eq_flatMap, preorderAll_eq_flatMap, List.filter_flatMap]
  exact List.flatMap_congr fun n _ => leaves_eq_filter n

end Node

namespace Cursor

open Node

variable {root : Node} {c d : Cursor} {above : List Step}

/-! ## Places behind a place -/

/-- The places that follow along a way up: those of the later siblings, then those of the later
siblings of the parent, and so on. -/
def behind : List Step → List Cursor
  | [] => []
  | s :: above =>
    placesAmong s.parent above (s.index + 1) (s.parent.children.drop (s.index + 1)) ++ behind above

theorem placesAmong_append (parent : Node) (above : List Step) (index : Nat) (ns ms : List Node) :
    placesAmong parent above index (ns ++ ms) =
      placesAmong parent above index ns ++ placesAmong parent above (index + ns.length) ms := by
  induction ns generalizing index with
  | nil => rfl
  | cons n ns ih =>
    rw [List.cons_append, placesAmong, placesAmong, ih, List.append_assoc, List.length_cons,
      Nat.add_right_comm, Nat.add_assoc]

theorem places_eq (above : List Step) (n : Node) :
    places above n = ⟨n, above⟩ :: placesAmong n above 0 n.children := by
  obtain ⟨l, cs⟩ := n
  rfl

/-- The places of a tree, as seen from one of them: in front of it there are at least those
above it, then come those below it, and then those behind it. -/
theorem all_eq_append (h : c.IsIn root) :
    ∃ before, (ofRoot root).all = before ++ (c.all ++ behind c.above) ∧
      c.above.length ≤ before.length := by
  obtain ⟨n, above⟩ := c
  induction above generalizing n with
  | nil =>
    obtain rfl : n = root := h
    exact ⟨[], by simp [behind, ofRoot], Nat.le_refl _⟩
  | cons s above ih =>
    obtain ⟨before, hall, hlength⟩ := ih s.parent h.2
    obtain ⟨hi, -⟩ := List.getElem?_eq_some_iff.1 h.1
    -- the children of the parent, cut at the node
    have hparent : all ⟨s.parent, above⟩ =
        ⟨s.parent, above⟩ :: placesAmong s.parent above 0 (s.parent.children.take s.index) ++
          (all ⟨n, s :: above⟩ ++
            placesAmong s.parent above (s.index + 1) (s.parent.children.drop (s.index + 1))) := by
      rw [all, places_eq]
      conv_lhs => rw [children_eq_append h.1, placesAmong_append, placesAmong]
      rw [List.length_take, Nat.min_eq_left (Nat.le_of_lt hi), Nat.zero_add]
      rfl
    refine ⟨before ++ ⟨s.parent, above⟩ ::
      placesAmong s.parent above 0 (s.parent.children.take s.index), ?_, ?_⟩
    · rw [hall, hparent, behind]
      simp only [List.append_assoc]
    · simp only [List.length_append, List.length_cons] at hlength ⊢
      omega

/-- The nodes at the places behind a place are those of the trees that follow it. -/
theorem map_node_behind (c : Cursor) : (behind c.above).map (·.node) = preorderAll c.following := by
  have hamong : ∀ (parent : Node) (above : List Step) (index : Nat) (ns : List Node),
      (placesAmong parent above index ns).map (·.node) = preorderAll ns := by
    intro parent above index ns
    induction ns generalizing index with
    | nil => rfl
    | cons n ns ih =>
      rw [placesAmong, List.map_append, ih, preorderAll]
      exact congrArg (· ++ preorderAll ns) (map_node_all ⟨n, ⟨parent, index⟩ :: above⟩)
  obtain ⟨n, above⟩ := c
  induction above generalizing n with
  | nil => rfl
  | cons s above ih =>
    rw [behind, List.map_append, hamong, ih s.parent, following_cons]
    simp only [preorderAll_eq_flatMap, List.flatMap_append]

/-! ## Tokens -/

/-- Whether there is a token at a place: a leaf that covers some bytes and is no comment. -/
def isTokenAt (c : Cursor) : Bool := c.node.children.isEmpty && c.node.isToken

/-- The next token is the first one behind a place. -/
theorem nextToken?_eq_find_behind (c : Cursor) :
    c.nextToken? = ((behind c.above).find? isTokenAt).map (·.node) := by
  have hfind : ((behind c.above).find? isTokenAt).map (·.node) =
      ((behind c.above).map (·.node)).find? fun n => n.children.isEmpty && n.isToken := by
    rw [List.find?_map]
    rfl
  rw [hfind, map_node_behind, nextToken?, leavesAll_eq_filter, List.find?_filter]
  refine List.find?_congr fun n _ => ?_
  rw [Bool.eq_iff_iff]
  simp [isToken]

/-! ## The search -/

/-- The place of the next sibling. -/
def nextSibling? (c : Cursor) : Option Cursor :=
  match c.above with
  | [] => none
  | s :: above => s.parent.children[s.index + 1]?.map fun n => ⟨n, ⟨s.parent, s.index + 1⟩ :: above⟩

/-- The first leaf below a node: the node itself when it has no children, or else the first leaf
below the first of them. -/
def firstLeaf (above : List Step) : Node → Cursor
  | .mk l [] => ⟨.mk l [], above⟩
  | .mk l (n :: ns) => firstLeaf (⟨.mk l (n :: ns), 0⟩ :: above) n

/-- What one round of the search comes to. -/
inductive Round where
  /-- It is over, with the place of a token or with nothing. -/
  | over (found : Option Cursor)
  /-- It goes on from another place. -/
  | on (place : Cursor)

/-- One round of the search: up to the parent, or to the first leaf of the next sibling. -/
def round (c : Cursor) : Round :=
  match c.nextSibling? with
  | none =>
    match c.parent? with
    | none => .over none
    | some parent => .on parent
  | some sibling =>
    let leaf := firstLeaf sibling.above sibling.node
    if leaf.node.kind = "comment" ∨ leaf.node.start = leaf.node.stop then .on leaf
    else .over (some leaf)

/-- The search from a place, if it is over after some rounds. -/
def search : Nat → Cursor → Option (Option Cursor)
  | 0, _ => none
  | rounds + 1, c =>
    match round c with
    | .over found => some found
    | .on place => search rounds place

/-- How many places the search may still visit: those behind the current one, and those above. -/
def left (c : Cursor) : Nat := (behind c.above).length + c.above.length

/-- Going down to the first leaf passes over no other leaf, and what is behind it is the rest. -/
theorem behind_eq_firstLeaf (above : List Step) (n : Node) :
    ∃ passed, places above n ++ behind above =
        passed ++ firstLeaf above n :: behind (firstLeaf above n).above ∧
      (∀ d ∈ passed, d.node.children.isEmpty = false) ∧
      (firstLeaf above n).node.children = [] ∧
      (firstLeaf above n).above.length = above.length + passed.length := by
  induction n using Node.induction generalizing above with
  | step l cs ih =>
    cases cs with
    | nil => exact ⟨[], rfl, fun d hd => absurd hd List.not_mem_nil, rfl, rfl⟩
    | cons m ms =>
      obtain ⟨passed, hplaces, hpassed, hleaf, hlength⟩ :=
        ih m List.mem_cons_self (⟨.mk l (m :: ms), 0⟩ :: above)
      refine ⟨⟨.mk l (m :: ms), above⟩ :: passed, ?_, ?_, hleaf, ?_⟩
      · have hrest : places above (.mk l (m :: ms)) ++ behind above =
            ⟨.mk l (m :: ms), above⟩ :: (places (⟨.mk l (m :: ms), 0⟩ :: above) m ++
              behind (⟨.mk l (m :: ms), 0⟩ :: above)) := by
          rw [places, placesAmong, behind, List.cons_append, List.append_assoc]
          rfl
        rw [hrest, hplaces]
        rfl
      · exact List.forall_mem_cons.2 ⟨rfl, hpassed⟩
      · rw [firstLeaf, hlength, List.length_cons, List.length_cons]
        omega

/-- From a place with a next sibling, the places behind are those below the sibling and those
behind it. -/
theorem behind_of_nextSibling? {sibling : Cursor} (h : c.nextSibling? = some sibling) :
    behind c.above = places sibling.above sibling.node ++ behind sibling.above ∧
      sibling.above.length = c.above.length := by
  obtain ⟨n, above⟩ := c
  cases above with
  | nil => cases h
  | cons s above =>
    obtain ⟨m, hm, rfl⟩ := Option.map_eq_some_iff.1 h
    obtain ⟨hi, hget⟩ := List.getElem?_eq_some_iff.1 hm
    refine ⟨?_, rfl⟩
    rw [behind, List.drop_eq_getElem_cons hi, hget, placesAmong, List.append_assoc]
    rfl

/-- From a place without a next sibling, the places behind are those behind its parent. -/
theorem behind_of_nextSibling?_eq_none (h : c.nextSibling? = none) :
    (c.parent? = none ∧ behind c.above = []) ∨
      ∃ parent, c.parent? = some parent ∧ behind c.above = behind parent.above ∧
        c.above.length = parent.above.length + 1 := by
  obtain ⟨n, above⟩ := c
  cases above with
  | nil => exact Or.inl ⟨rfl, rfl⟩
  | cons s above =>
    have hlast : s.parent.children.length ≤ s.index + 1 :=
      List.getElem?_eq_none_iff.1 (Option.map_eq_none_iff.1 h)
    refine Or.inr ⟨_, rfl, ?_, rfl⟩
    rw [behind, List.drop_eq_nil_of_le hlast]
    rfl

/-- All that a round can do: it is over, with the first token behind the place, or it goes on
from a place behind which the same token is the first one, with one place less to visit. -/
theorem round_cases (c : Cursor) :
    round c = .over ((behind c.above).find? isTokenAt) ∨
      ∃ d, round c = .on d ∧ (behind d.above).find? isTokenAt = (behind c.above).find? isTokenAt ∧
        d.left + 1 = c.left := by
  unfold round
  cases hsibling : c.nextSibling? with
  | none =>
    rcases behind_of_nextSibling?_eq_none hsibling with ⟨hparent, hbehind⟩ |
      ⟨parent, hparent, hbehind, hlength⟩
    · rw [hparent, hbehind]
      exact Or.inl rfl
    · rw [hparent]
      refine Or.inr ⟨parent, rfl, by rw [hbehind], ?_⟩
      rw [left, left, hbehind, hlength, Nat.add_assoc]
  | some sibling =>
    obtain ⟨hbehind, hlevel⟩ := behind_of_nextSibling? hsibling
    obtain ⟨passed, hplaces, hpassed, hleaf, hlength⟩ :=
      behind_eq_firstLeaf sibling.above sibling.node
    rw [hplaces] at hbehind
    -- the places passed over on the way down are no leaves
    have hfind : (behind c.above).find? isTokenAt =
        (firstLeaf sibling.above sibling.node ::
          behind (firstLeaf sibling.above sibling.node).above).find? isTokenAt := by
      rw [hbehind, List.find?_append, List.find?_eq_none.2, Option.none_or]
      intro d hd
      simp [isTokenAt, hpassed d hd]
    simp only
    split
    · rename_i hskip
      have hnot : isTokenAt (firstLeaf sibling.above sibling.node) = false := by
        rcases hskip with hcomment | hempty
        · simp [isTokenAt, isToken, hcomment]
        · simp [isTokenAt, isToken, hempty]
      refine Or.inr ⟨_, rfl, ?_, ?_⟩
      · rw [hfind, List.find?_cons_of_neg (by simp [hnot])]
      · rw [left, left, hbehind, List.length_append, List.length_cons, hlength]
        omega
    · rename_i hcounts
      rw [not_or] at hcounts
      refine Or.inl ?_
      rw [hfind, List.find?_cons_of_pos]
      simp [isTokenAt, isToken, hleaf, hcounts.1, hcounts.2]

/-- The search is over after as many rounds as there are places left to visit and one more, with
the first token behind the place. -/
theorem search_eq {rounds : Nat} (h : c.left < rounds) :
    search rounds c = some ((behind c.above).find? isTokenAt) := by
  induction rounds generalizing c with
  | zero => exact absurd h (Nat.not_lt_zero _)
  | succ rounds ih =>
    rw [search]
    rcases round_cases c with hover | ⟨d, hon, hfind, hleft⟩
    · rw [hover]
    · rw [hon, ← hfind]
      exact ih (by omega)

/-- **The next token.**  The places of a tree are those in front of a place, those below it, the
place included, and those behind it, in this order; since no place comes twice, they are cut in
one way only.  The next token is the first place behind that is a leaf, covers some bytes and is
no comment; there is none when no place behind is so.  The search finds it, and is over in no
more rounds than the tree has nodes. -/
theorem nextToken?_eq_first (root : Node) (c : Cursor) (h : c.IsIn root) :
    ∃ before after, (ofRoot root).all = before ++ (c.all ++ after) ∧
      c.nextToken? = (after.find? isTokenAt).map (·.node) ∧
      ∀ rounds, root.preorder.length ≤ rounds → search rounds c = some (after.find? isTokenAt) := by
  obtain ⟨before, hall, hlength⟩ := all_eq_append h
  refine ⟨before, behind c.above, hall, nextToken?_eq_find_behind c, fun rounds hrounds => ?_⟩
  refine search_eq ?_
  have hsize := congrArg List.length (map_node_all (ofRoot root))
  rw [List.length_map] at hsize
  have hself : 0 < c.all.length := List.length_pos_of_mem (self_mem_all c)
  change _ = root.preorder.length at hsize
  rw [← hsize, hall, List.length_append, List.length_append] at hrounds
  rw [left]
  omega

/-! ### A token behind leaves that do not count -/

/-- A statement of a block. -/
def firstStatement : Node :=
  .construct "expression_statement" 1 3 [.construct "identifier" 1 2, .token ";" 2]

/-- The tree of a block with a statement, a comment and a name that the parser has supplied. -/
def commentedBlock : Node :=
  .construct "statement_block" 0 13
    [.token "\x7b" 0, firstStatement, .construct "comment" 4 11,
     .construct "expression_statement" 12 12 [.construct "identifier" 12 12], .token "\x7d" 12]

/-- The place of the semicolon of the statement. -/
def firstSemicolon : Cursor := ⟨.token ";" 2, [⟨firstStatement, 1⟩, ⟨commentedBlock, 1⟩]⟩

/-- Behind the semicolon comes the closing brace: neither the comment nor the name counts. -/
theorem nextToken?_firstSemicolon :
    firstSemicolon.IsIn commentedBlock ∧ firstSemicolon.nextToken? = some (.token "\x7d" 12) ∧
      ∃ before after,
        (ofRoot commentedBlock).all = before ++ (firstSemicolon.all ++ after) ∧
          after.find? isTokenAt = some ⟨.token "\x7d" 12, [⟨commentedBlock, 4⟩]⟩ ∧
          search commentedBlock.preorder.length firstSemicolon =
            some (some ⟨.token "\x7d" 12, [⟨commentedBlock, 4⟩]⟩) := by
  have hplace : firstSemicolon.IsIn commentedBlock := ⟨rfl, rfl, rfl⟩
  have hfound : search commentedBlock.preorder.length firstSemicolon =
      some (some ⟨.token "\x7d" 12, [⟨commentedBlock, 4⟩]⟩) := rfl
  obtain ⟨before, after, hall, -, hsearch⟩ := nextToken?_eq_first _ _ hplace
  rw [hsearch _ (Nat.le_refl _), Option.some.injEq] at hfound
  exact ⟨hplace, rfl, before, after, hall, hfound, by rw [hsearch _ (Nat.le_refl _), hfound]⟩

end Cursor
end WebLint
