import WebLint.Proofs.Tree.Placement
import WebLint.Style.Check

/-!
# Where the spots of a stylesheet stand

The rules about stylesheets look at statements and closing braces, and at the
strings of each statement.  The two walks that find them meet in no place: a
statement starts before those in its blocks, and its strings stand between its
blocks.

What is proved here:

* `pairwise_strings` — the strings of a statement follow each other;
* `Spot.Before` — a spot starts in front of another one, and none of its strings
  reaches into it;
* `pairwise_spots` — which holds between all spots of a sheet, in order.
-/

namespace WebLint
namespace StyleCheck

open Node
open VendorPrefix (holdsStatements)

/-! ## The walks, node by node -/

/-- The strings in one node of a statement. -/
def stringsOf (n : Node) : List Node :=
  if !n.isNamed || isInner n.kind then [] else if n.kind = "string_value" then [n] else strings n

theorem strings_eq_flatMap (n : Node) : strings n = n.children.flatMap stringsOf := by
  obtain ⟨l, cs⟩ := n
  rw [strings]
  induction cs with
  | nil => rfl
  | cons c cs ih =>
    rw [stringsAmong, ih]
    rfl

/-- The spots that a node of a block is about. -/
def spotsOf (depth : Nat) (n : Node) : List Spot :=
  if n.isNamed then .statement depth n :: innerSpots depth n.children
  else if n.kind = "\x7d" ∧ 0 < depth then [.brace (depth - 1) n]
  else []

/-- The spots in a node of a statement, if it is a block. -/
def blockSpots (depth : Nat) (n : Node) : List Spot :=
  if n.isNamed && holdsStatements n.kind then spots (depth + 1) n.children else []

theorem spots_eq_flatMap (depth : Nat) (ns : List Node) :
    spots depth ns = ns.flatMap (spotsOf depth) := by
  induction ns with
  | nil => simp [spots]
  | cons n ns ih =>
    obtain ⟨l, cs⟩ := n
    rw [spots, ih]
    rfl

theorem innerSpots_eq_flatMap (depth : Nat) (ns : List Node) :
    innerSpots depth ns = ns.flatMap (blockSpots depth) := by
  induction ns with
  | nil => simp [innerSpots]
  | cons n ns ih =>
    obtain ⟨l, cs⟩ := n
    rw [innerSpots, ih]
    rfl

/-- The strings of a spot. -/
def Spot.literals : Spot → List Node
  | .statement _ n => StyleCheck.strings n
  | .brace _ _ => []

/-! ## Strings -/

/-- The strings of a statement are parts of the nodes in it that belong to no other
statement. -/
theorem exists_of_mem_strings {n l : Node} (h : l ∈ strings n) :
    ∃ c ∈ n.children, isInner c.kind = false ∧ l ∈ c.preorder ∧ l.kind = "string_value" := by
  induction n using Node.induction with
  | step label cs ih =>
    rw [strings_eq_flatMap] at h
    obtain ⟨c, hc, hl⟩ := List.mem_flatMap.1 h
    refine ⟨c, hc, ?_⟩
    unfold stringsOf at hl
    split at hl
    · cases hl
    rename_i hinner
    have hinner : isInner c.kind = false := by
      cases hkind : isInner c.kind with
      | true => exact absurd (by simp [hkind]) hinner
      | false => rfl
    split at hl
    · rename_i hkind
      obtain rfl := List.mem_singleton.1 hl
      exact ⟨hinner, self_mem_preorder _, hkind⟩
    · obtain ⟨e, he, -, hle, hkind⟩ := ih c hc hl
      exact ⟨hinner, mem_preorder_of_child he hle, hkind⟩

theorem mem_preorder_of_mem_strings {n l : Node} (h : l ∈ strings n) : l ∈ n.preorder := by
  obtain ⟨c, hc, -, hl, -⟩ := exists_of_mem_strings h
  exact mem_preorder_of_child hc hl

/-- The strings of a statement follow each other. -/
theorem pairwise_strings {t : Text} {n : Node} (hplaced : n.IsPlaced t) :
    (strings n).Pairwise fun l r => l.stop ≤ r.start := by
  have hbelow : ∀ {c l : Node}, l ∈ stringsOf c → l ∈ c.preorder := by
    intro c l hl
    unfold stringsOf at hl
    split at hl
    · cases hl
    split at hl
    · rw [List.mem_singleton.1 hl]
      exact self_mem_preorder c
    · exact mem_preorder_of_mem_strings hl
  induction n using Node.induction with
  | step label cs ih =>
    rw [strings_eq_flatMap, List.pairwise_flatMap]
    constructor
    · intro c hc
      unfold stringsOf
      split
      · exact .nil
      split
      · exact List.pairwise_singleton _ c
      · exact ih c hc (hplaced.child hc)
    · exact (hplaced.siblings _ (self_mem_preorder _)).imp_of_mem fun {a b} ha hb hab l hl r hr =>
        hplaced.stop_le_start ha hb hab (hbelow hl) (hbelow hr)

/-! ## Spots -/

/-- Whether a spot starts in front of another one, with strings that do not reach into
it. -/
def Spot.Before (s r : Spot) : Prop :=
  s.node.start < r.node.start ∧ ∀ l ∈ s.literals, l.stop ≤ r.node.start ∨ r.node.stop ≤ l.start

theorem mem_preorder_of_mem_literals {s : Spot} {l : Node} (h : l ∈ s.literals) :
    l ∈ s.node.preorder := by
  cases s with
  | statement depth n => exact mem_preorder_of_mem_strings h
  | brace depth n => cases h

/-- The spots that a node is about lie in it. -/
theorem node_mem_preorder {depth : Nat} {n : Node} {s : Spot} :
    (s ∈ spotsOf depth n → s.node ∈ n.preorder) ∧
      (s ∈ blockSpots depth n → s.node ∈ n.preorder) := by
  induction n using Node.induction generalizing depth with
  | step label cs ih =>
    constructor
    · intro hs
      unfold spotsOf at hs
      split at hs
      · rcases List.mem_cons.1 hs with rfl | hs
        · exact self_mem_preorder _
        · rw [innerSpots_eq_flatMap] at hs
          obtain ⟨c, hc, hs⟩ := List.mem_flatMap.1 hs
          exact mem_preorder_of_child hc ((ih c hc).2 hs)
      split at hs
      · rw [List.mem_singleton.1 hs]
        exact self_mem_preorder _
      · cases hs
    · intro hs
      unfold blockSpots at hs
      split at hs
      · rw [spots_eq_flatMap] at hs
        obtain ⟨c, hc, hs⟩ := List.mem_flatMap.1 hs
        exact mem_preorder_of_child hc ((ih c hc).1 hs)
      · cases hs

/-- Whether each block of a tree opens with a brace that covers some bytes. -/
def BlocksOpen (root : Node) : Prop :=
  ∀ n ∈ root.preorder, holdsStatements n.kind = true →
    ∃ brace ∈ n.children.head?, brace.isNamed = false ∧ brace.kind = "\x7b" ∧
      brace.start < brace.stop

instance (root : Node) : Decidable (BlocksOpen root) :=
  inferInstanceAs (Decidable (∀ n ∈ root.preorder, _ → ∃ brace ∈ n.children.head?, _))

theorem BlocksOpen.child {root n : Node} (h : BlocksOpen root) (hn : n ∈ root.children) :
    BlocksOpen n :=
  fun m hm => h m (mem_preorder_of_child hn hm)

section

variable {t : Text} {depth : Nat} {n : Node} {s r : Spot}

theorem holdsStatements_of_mem_blockSpots (hs : s ∈ blockSpots depth n) :
    holdsStatements n.kind = true ∧ s ∈ n.children.flatMap (spotsOf (depth + 1)) := by
  unfold blockSpots at hs
  split at hs
  · rename_i h
    rw [spots_eq_flatMap] at hs
    exact ⟨(Bool.and_eq_true_iff.1 h).2, hs⟩
  · cases hs

/-- The spots of a block start behind the brace it opens with. -/
theorem start_lt_of_mem_blockSpots (hplaced : n.IsPlaced t) (hopen : BlocksOpen n)
    (hs : s ∈ blockSpots depth n) : n.start < s.node.start := by
  obtain ⟨hkind, hs⟩ := holdsStatements_of_mem_blockSpots hs
  obtain ⟨brace, hhead, hnamed, hbrace, hlt⟩ := hopen n (self_mem_preorder n) hkind
  obtain ⟨rest, hrest⟩ := List.head?_eq_some_iff.1 hhead
  obtain ⟨c, hc, hs⟩ := List.mem_flatMap.1 hs
  have hstart := hplaced.nested n (self_mem_preorder n) brace (by simp [hrest])
  have hsiblings := hplaced.siblings n (self_mem_preorder n)
  have hwithin := (hplaced.child hc).within (node_mem_preorder.1 hs)
  rw [hrest] at hsiblings hc
  rcases List.mem_cons.1 hc with rfl | hc
  · -- the brace itself is no spot
    rw [spotsOf, hnamed, hbrace] at hs
    simp at hs
  · have hbehind := (List.pairwise_cons.1 hsiblings).1 c hc
    omega

/-- What siblings are about stands in their order. -/
theorem before_of_siblings {a b : Node} (hplaced : n.IsPlaced t) (ha : a ∈ n.children)
    (hb : b ∈ n.children) (hab : a.stop ≤ b.start) (hs : s.node ∈ a.preorder)
    (hr : r.node ∈ b.preorder) (hlt : s.node.start < s.node.stop) : s.Before r := by
  constructor
  · exact Nat.lt_of_lt_of_le hlt (hplaced.stop_le_start ha hb hab hs hr)
  · intro l hl
    exact Or.inl (hplaced.stop_le_start ha hb hab
      (mem_preorder_trans hs (mem_preorder_of_mem_literals hl)) hr)

/-- A statement starts in front of the spots in its blocks, and its strings stand between
the blocks. -/
theorem before_of_mem_blockSpots {c : Node} (hplaced : n.IsPlaced t) (hopen : BlocksOpen n)
    (hc : c ∈ n.children) (hr : r ∈ blockSpots depth c) :
    Spot.Before (.statement depth n) r := by
  constructor
  · have hbehind := start_lt_of_mem_blockSpots (hplaced.child hc) (hopen.child hc) hr
    exact Nat.lt_of_le_of_lt (hplaced.nested n (self_mem_preorder n) c hc).1 hbehind
  · intro l hl
    obtain ⟨e, he, hinner, hl, -⟩ := exists_of_mem_strings hl
    have hne : e ≠ c := by
      rintro rfl
      rw [isInner, (holdsStatements_of_mem_blockSpots hr).1] at hinner
      cases hinner
    have hr := node_mem_preorder.2 hr
    rcases hplaced.apart_of_ne he hc hne with h | h
    · exact Or.inl (hplaced.stop_le_start he hc h hl hr)
    · exact Or.inr (hplaced.stop_le_start hc he h hr hl)

end

/-- Spots of siblings stand in order when those of each sibling do. -/
theorem pairwise_flatMap_before {t : Text} {n : Node} (hplaced : n.IsPlaced t)
    {f : Node → List Spot} (hf : ∀ c ∈ n.children, ∀ s ∈ f c, s.node ∈ c.preorder)
    (hlt : ∀ s ∈ n.children.flatMap f, s.node.start < s.node.stop)
    (hone : ∀ c ∈ n.children, (∀ s ∈ f c, s.node.start < s.node.stop) →
      (f c).Pairwise Spot.Before) :
    (n.children.flatMap f).Pairwise Spot.Before := by
  rw [List.pairwise_flatMap]
  constructor
  · exact fun c hc => hone c hc fun s hs => hlt s (List.mem_flatMap.2 ⟨c, hc, hs⟩)
  · refine (hplaced.siblings n (self_mem_preorder n)).imp_of_mem fun {a b} ha hb hab s hs r hr => ?_
    exact before_of_siblings hplaced ha hb hab (hf a ha s hs) (hf b hb r hr)
      (hlt s (List.mem_flatMap.2 ⟨a, ha, hs⟩))

/-- The spots that a node is about stand in order. -/
theorem pairwise_spotsOf {t : Text} {n : Node} (hplaced : n.IsPlaced t) (hopen : BlocksOpen n)
    (depth : Nat) :
    ((∀ s ∈ spotsOf depth n, s.node.start < s.node.stop) →
      (spotsOf depth n).Pairwise Spot.Before) ∧
    ((∀ s ∈ blockSpots depth n, s.node.start < s.node.stop) →
      (blockSpots depth n).Pairwise Spot.Before) := by
  induction n using Node.induction generalizing depth with
  | step label cs ih =>
    constructor
    · unfold spotsOf
      split
      · intro hlt
        obtain ⟨-, hlt⟩ := List.forall_mem_cons.1 hlt
        rw [innerSpots_eq_flatMap] at hlt ⊢
        refine List.pairwise_cons.2 ⟨fun r hr => ?_, ?_⟩
        · obtain ⟨c, hc, hr⟩ := List.mem_flatMap.1 hr
          exact before_of_mem_blockSpots hplaced hopen hc hr
        · exact pairwise_flatMap_before hplaced (fun c _ s hs => node_mem_preorder.2 hs) hlt
            fun c hc => (ih c hc (hplaced.child hc) (hopen.child hc) depth).2
      split
      · exact fun _ => List.pairwise_singleton _ _
      · exact fun _ => .nil
    · unfold blockSpots
      split
      · intro hlt
        rw [spots_eq_flatMap] at hlt ⊢
        exact pairwise_flatMap_before hplaced (fun c _ s hs => node_mem_preorder.1 hs) hlt
          fun c hc => (ih c hc (hplaced.child hc) (hopen.child hc) (depth + 1)).1
      · exact fun _ => .nil

/-- The spots of a sheet stand in order. -/
theorem pairwise_spots {t : Text} {root : Node} (hplaced : root.IsPlaced t)
    (hopen : BlocksOpen root)
    (hspots : ∀ s ∈ spots 0 root.children, s.node.start < s.node.stop) :
    (spots 0 root.children).Pairwise Spot.Before := by
  rw [spots_eq_flatMap] at hspots ⊢
  exact pairwise_flatMap_before hplaced (fun c _ s hs => node_mem_preorder.1 hs) hspots
    fun c hc => (pairwise_spotsOf (hplaced.child hc) (hopen.child hc) 0).1

end StyleCheck
end WebLint
