import WebLint.Proofs.Style.Declaration
import WebLint.Proofs.Style.Statements
import WebLint.Proofs.Tree

/-!
# What a sheet holds

A sheet is built from a tree by a recursion that tells declarations, style rules, animations
and other statements apart, and takes the first block of each.  In a tree as the grammar gives
it no declaration is lost on the way, none is taken twice, and none changes its place.

What is proved here:

* `IsGrammatical.declarationsIn_ofTree` — the declarations of a sheet, each with the part it
  is directly in, are those of the tree, in the order of the tree;
* `IsGrammatical.pairwise_start` — each starts in front of the next one;
* `forall₂_declarationsIn` — so each is described as the tree has it, under its own rule.
-/

namespace WebLint
namespace Sheet

open Node Cursor
open StyleCheck

/-! ## Building, node by node -/

/-- The items of a block. -/
def itemsOf (t : Text) (n : Node) : Sheet := items t n.children

/-- The frames of a list of frames. -/
def framesOf (t : Text) (n : Node) : Sheet := frameBlocks t n.children

theorem statement_eq (t : Text) (n : Node) : statement t n =
    if !n.isNamed then []
    else if n.kind = "declaration" then ((declaration? t n).map StyleNode.declaration).toList
    else if n.kind = "rule_set" then [.rule (selectorTexts t n.children) (blockItems t n.children)]
    else if n.kind = "keyframes_statement" then
      [.atRule (firstText t n.children) (frames t n.children)]
    else if isComment n then []
    else if hasBlock n.children then [.atRule (firstText t n.children) (blockItems t n.children)]
    else [] := by
  obtain ⟨l, cs⟩ := n
  rw [statement]
  rfl

theorem frameBlocks_singleton (t : Text) (n : Node) : frameBlocks t [n] =
    if isKind "keyframe_block" n then
      [.atRule (firstText t n.namedChildren) (blockItems t n.children)]
    else [] := by
  obtain ⟨l, cs⟩ := n
  rw [frameBlocks, frameBlocks, List.append_nil]
  rfl

theorem items_eq_flatMap (t : Text) (ns : List Node) : items t ns = ns.flatMap (statement t) := by
  induction ns with
  | nil => simp [items]
  | cons n ns ih => rw [items, ih, List.flatMap_cons]

theorem frameBlocks_eq_flatMap (t : Text) (ns : List Node) :
    frameBlocks t ns = ns.flatMap fun n => frameBlocks t [n] := by
  induction ns with
  | nil => simp [frameBlocks]
  | cons n ns ih =>
    obtain ⟨l, cs⟩ := n
    rw [List.flatMap_cons, ← ih, frameBlocks, frameBlocks, frameBlocks, List.append_nil]

theorem blockItems_eq (t : Text) (ns : List Node) :
    blockItems t ns = ((ns.find? (isKind "block")).map (itemsOf t)).getD [] := by
  induction ns with
  | nil => simp [blockItems]
  | cons n ns ih =>
    obtain ⟨l, cs⟩ := n
    rw [blockItems, ih, List.find?_cons]
    show (if isKind "block" (.mk l cs) = true then _ else _) = _
    split
    · rename_i h
      simp [h, itemsOf, Node.children]
    · rename_i h
      simp [h]

/-- A statement that ends without a block has no items. -/
theorem blockItems_eq_nil {t : Text} {ns : List Node} (h : ¬hasBlock ns = true) :
    blockItems t ns = [] := by
  have hfind : ns.find? (isKind "block") = none :=
    List.find?_eq_none.2 fun n hn hkind => h (List.any_eq_true.2 ⟨n, hn, hkind⟩)
  simp [blockItems_eq, hfind]

theorem frames_eq (t : Text) (ns : List Node) :
    frames t ns = ((ns.find? (isKind "keyframe_block_list")).map (framesOf t)).getD [] := by
  induction ns with
  | nil => simp [frames]
  | cons n ns ih =>
    obtain ⟨l, cs⟩ := n
    rw [frames, ih, List.find?_cons]
    show (if isKind "keyframe_block_list" (.mk l cs) = true then _ else _) = _
    split
    · rename_i h
      simp [h, framesOf, Node.children]
    · rename_i h
      simp [h]

/-- Where there is no more than one member of a class, it is the first one. -/
theorem flatMap_of_length_filter_le {α β : Type} {p : α → Bool} {f : α → List β} {as : List α}
    (h : (as.filter p).length ≤ 1) :
    (as.flatMap fun a => if p a then f a else []) = ((as.find? p).map f).getD [] := by
  induction as with
  | nil => rfl
  | cons a as ih =>
    rw [List.flatMap_cons, List.find?_cons]
    by_cases hp : p a = true
    · rw [List.filter_cons_of_pos hp, List.length_cons] at h
      have hnone : as.filter p = [] := List.length_eq_zero_iff.1 (by omega)
      have hrest : (as.flatMap fun a => if p a then f a else []) = [] := by
        refine List.flatMap_eq_nil_iff.2 fun b hb => if_neg ?_
        exact List.filter_eq_nil_iff.1 hnone b hb
      simp [hp, hrest]
    · rw [List.filter_cons_of_neg hp] at h
      simp [hp, ih h]

/-! ## Walking a sheet -/

mutual

/-- The declarations in one part of a sheet, each with the part it is directly in. -/
def declarationsOf (owner : Option StyleNode) : StyleNode → List (Option StyleNode × Declaration)
  | .atRule name inner => declarationsIn (some (.atRule name inner)) inner
  | .rule selectors inner => declarationsIn (some (.rule selectors inner)) inner
  | .declaration d => [(owner, d)]

/-- The declarations in some parts of a sheet, in order. -/
def declarationsIn (owner : Option StyleNode) :
    List StyleNode → List (Option StyleNode × Declaration)
  | [] => []
  | n :: ns => declarationsOf owner n ++ declarationsIn owner ns

end

theorem declarationsIn_eq_flatMap (owner : Option StyleNode) (ns : List StyleNode) :
    declarationsIn owner ns = ns.flatMap (declarationsOf owner) := by
  induction ns with
  | nil => simp [declarationsIn]
  | cons n ns ih => rw [declarationsIn, ih, List.flatMap_cons]

/-- A walk through what several nodes stand for takes one node after the other. -/
theorem declarationsIn_flatMap {α : Type} (owner : Option StyleNode) (f : α → List StyleNode)
    (as : List α) :
    declarationsIn owner (as.flatMap f) = as.flatMap fun a => declarationsIn owner (f a) := by
  simp only [declarationsIn_eq_flatMap, List.flatMap_assoc]

/-! ## Declarations in a tree -/

/-- The part of a sheet that a statement becomes.  A frame becomes one in its list. -/
def partOf? (t : Text) (s : Cursor) : Option StyleNode :=
  if s.parent?.any fun p => isKind "keyframe_block_list" p.node then
    (frameBlocks t [s.node]).head?
  else (statement t s.node).head?

/-- The part that what stands in a block is directly in: what the statement of the block
becomes. -/
def ownerIn? (t : Text) (block : Cursor) : Option StyleNode := block.parent?.bind (partOf? t)

/-- The declaration at a place, with the part it is directly in. -/
def declaredAt? (t : Text) (c : Cursor) : Option (Option StyleNode × Declaration) :=
  if isKind "declaration" c.node then
    (declaration? t c.node).map fun d => (c.parent?.bind (ownerIn? t), d)
  else none

theorem declaredAt?_eq_some {t : Text} {c : Cursor} {x : Option StyleNode × Declaration} :
    declaredAt? t c = some x ↔ isKind "declaration" c.node = true ∧
      x.1 = c.parent?.bind (ownerIn? t) ∧ declaration? t c.node = some x.2 := by
  obtain ⟨owner, d⟩ := x
  by_cases hkind : isKind "declaration" c.node = true
  · rw [declaredAt?, if_pos hkind, Option.map_eq_some_iff]
    constructor
    · rintro ⟨d, hd, hx⟩
      obtain ⟨rfl, rfl⟩ := Prod.mk.inj hx
      exact ⟨hkind, rfl, hd⟩
    · rintro ⟨-, howner, hd⟩
      exact ⟨d, hd, by rw [← howner]⟩
  · simp [declaredAt?, hkind]

/-- The declarations at and below a place. -/
def declaredIn (t : Text) (c : Cursor) : List (Option StyleNode × Declaration) :=
  c.all.filterMap (declaredAt? t)

theorem declaredIn_eq (t : Text) (c : Cursor) :
    declaredIn t c = (declaredAt? t c).toList ++ c.children.flatMap (declaredIn t) :=
  filterMap_all _ c

namespace IsGrammatical

variable {root : Node} {t : Text} {c d p : Cursor} (h : IsGrammatical root)
include h

/-- A declaration is directly in the sheet or in a block. -/
theorem declaredAt?_eq_none (hc : c ∈ (ofRoot root).all) (hinside : isInside c = false) :
    declaredAt? t c = none := by
  refine if_neg fun hkind => ?_
  obtain ⟨p, hp, hholds⟩ := (Option.any_eq_true _ _).1 (h.declarations c hc hkind)
  simp [isInside, hp, isContainer_of_holdsItems hholds] at hinside

/-- Where there is neither a statement nor a container, there is no declaration. -/
theorem declaredIn_eq_nil (hc : c ∈ (ofRoot root).all) (hinside : isInside c = false)
    (hcontainer : isContainer c = false) : declaredIn t c = [] := by
  induction c using Cursor.induction with
  | step c ih =>
    rw [declaredIn_eq, h.declaredAt?_eq_none hc hinside, Option.toList_none, List.nil_append,
      List.flatMap_eq_nil_iff]
    intro d hd
    have hmem := mem_all_of_mem_children hc hd
    obtain ⟨hinside', hcontainer'⟩ :=
      h.blocksInStatements.not_isInside_of_mem_children hmem hd hinside hcontainer
    exact ih d hd hmem hinside' hcontainer'

/-- In a statement, declarations are in its blocks and lists. -/
theorem flatMap_declaredIn (hc : c ∈ (ofRoot root).all) (hcontainer : isContainer c = false)
    {q : Node → Bool} (hq : ∀ d ∈ c.children, isBlock d.node = true → q d.node = true) :
    c.children.flatMap (declaredIn t) =
      c.children.flatMap fun d => if q d.node then declaredIn t d else [] := by
  refine List.flatMap_congr fun d hd => ?_
  split
  · rfl
  · rename_i hnot
    have hblock : isBlock d.node = false :=
      Bool.eq_false_iff.2 fun hblock => hnot (hq d hd hblock)
    refine h.declaredIn_eq_nil (mem_all_of_mem_children hc hd) ?_ ?_
    · rw [isInside_of_mem_children hd, hcontainer]
    · rw [isContainer_of_mem_children hd, hblock]

/-- In a statement with one block, or with one list, declarations are what this one holds. -/
theorem flatMap_declaredIn_eq (hc : c ∈ (ofRoot root).all) (hcontainer : isContainer c = false)
    {q : Node → Bool} (hq : ∀ d ∈ c.children, isBlock d.node = true → q d.node = true)
    (hone : (c.node.children.filter q).length ≤ 1) {owner : Option StyleNode} {f : Node → Sheet}
    (hf : ∀ d ∈ c.children, q d.node = true → declaredIn t d = declarationsIn owner (f d.node)) :
    c.children.flatMap (declaredIn t) =
      declarationsIn owner (((c.node.children.find? q).map f).getD []) := by
  have hparts : c.children.flatMap (fun d => if q d.node then declaredIn t d else []) =
      c.node.children.flatMap fun n => if q n then declarationsIn owner (f n) else [] := by
    rw [flatMap_node_children]
    refine List.flatMap_congr fun d hd => ?_
    split
    · rename_i hqd
      exact hf d hd hqd
    · rfl
  rw [h.flatMap_declaredIn hc hcontainer hq, hparts, flatMap_of_length_filter_le hone]
  cases c.node.children.find? q with
  | none => simp [declarationsIn]
  | some n => rfl

/-- Where neither a block nor a list may stand, there is no declaration either. -/
theorem flatMap_declaredIn_eq_nil (hc : c ∈ (ofRoot root).all) (hcontainer : isContainer c = false)
    (hblock : mayHaveBlock c = false) (hframes : mayHaveFrames c = false) :
    c.children.flatMap (declaredIn t) = [] := by
  have hnone : ∀ d ∈ c.children, isBlock d.node = true → false = true := by
    intro d hd hd'
    have hmem := mem_all_of_mem_children hc hd
    rcases isBlock_iff.1 hd' with hkind | hkind
    · have hmay := h.blocks d hmem hkind
      rw [parent?_of_mem_children hd, Option.any_some, hblock] at hmay
      exact hmay
    · have hmay := h.lists d hmem hkind
      rw [parent?_of_mem_children hd, Option.any_some, hframes] at hmay
      exact hmay
  rw [h.flatMap_declaredIn hc hcontainer (q := fun _ => false) hnone]
  simp

/-- A node that neither declares nor holds anything is without declarations. -/
theorem declaredIn_eq_nil_of_bare (hc : c ∈ (ofRoot root).all)
    (hdeclaration : isKind "declaration" c.node = false) (hcontainer : isContainer c = false)
    (hblock : mayHaveBlock c = false) (hframes : mayHaveFrames c = false) :
    declaredIn t c = [] := by
  have hnone : declaredAt? t c = none := by simp [declaredAt?, hdeclaration]
  rw [declaredIn_eq, hnone, h.flatMap_declaredIn_eq_nil hc hcontainer hblock hframes]
  rfl

/-- A token is without declarations. -/
theorem declaredIn_token (hc : c ∈ (ofRoot root).all) (hp : c.parent? = some p)
    (hnamed : ¬c.node.isNamed = true) : declaredIn t c = [] := by
  have hstatement : isStatement c = false := by simp [isStatement, hnamed]
  refine h.declaredIn_eq_nil_of_bare hc (by simp [isKind, hnamed]) ?_
    (by simp [mayHaveBlock, hstatement]) (by simp [mayHaveFrames, hstatement])
  rw [isContainer_of_mem_children ((mem_all_ofRoot.1 hc).parent hp).2]
  simp [isBlock, hnamed]

/-- A comment is without declarations. -/
theorem declaredIn_comment (hc : c ∈ (ofRoot root).all) (hp : c.parent? = some p)
    (hcomment : isComment c.node = true) : declaredIn t c = [] := by
  have hkind : c.node.kind = "comment" ∨ c.node.kind = "js_comment" := by
    simpa [isComment] using hcomment
  refine h.declaredIn_eq_nil_of_bare hc ?_ ?_ (by simp [mayHaveBlock, hcomment]) ?_
  · rcases hkind with hkind | hkind <;> simp [isKind, hkind]
  · rw [isContainer_of_mem_children ((mem_all_ofRoot.1 hc).parent hp).2]
    rcases hkind with hkind | hkind <;>
      simp [isBlock, hkind, VendorPrefix.holdsStatements]
  · rcases hkind with hkind | hkind <;> simp [mayHaveFrames, hkind]

/-- A declaration is what its node is built into, and holds no other one. -/
theorem declaredIn_declaration (hc : c ∈ (ofRoot root).all) (hp : c.parent? = some p)
    (hcontainer : isContainer c = false) (hkind : isKind "declaration" c.node = true) :
    declaredIn t c = declarationsIn (ownerIn? t p)
      ((declaration? t c.node).map StyleNode.declaration).toList := by
  have hkind' : c.node.kind = "declaration" := beq_iff_eq.1 (Bool.and_eq_true_iff.1 hkind).2
  rw [declaredIn_eq, h.flatMap_declaredIn_eq_nil hc hcontainer
    (by simp [mayHaveBlock, hkind']) (by simp [mayHaveFrames, hkind']), List.append_nil]
  cases hd : declaration? t c.node with
  | none => simp [declaredAt?, hd, declarationsIn]
  | some d => simp [declaredAt?, hkind, hd, hp, declarationsIn, declarationsOf]

/-- In a statement with a block, declarations are in the block. -/
theorem flatMap_declaredIn_block (hc : c ∈ (ofRoot root).all) (hmay : mayHaveBlock c = true)
    (hblocks : ∀ d ∈ c.children, isKind "block" d.node = true →
      declaredIn t d = declarationsIn (ownerIn? t d) (itemsOf t d.node)) :
    c.children.flatMap (declaredIn t) =
      declarationsIn (partOf? t c) (blockItems t c.node.children) := by
  have hmay' := hmay
  simp only [mayHaveBlock, Bool.and_eq_true, bne_iff_ne] at hmay'
  obtain ⟨⟨⟨hstatement, -⟩, hkind⟩, -⟩ := hmay'
  have hcontainer := h.blocksInStatements.isContainer_of_isStatement hc hstatement
  rw [blockItems_eq]
  refine h.flatMap_declaredIn_eq hc hcontainer (fun d hd hd' => ?_)
    (h.oneBlock _ (mem_all_ofRoot.1 hc).node_mem) fun d hd hd' => ?_
  · rcases isBlock_iff.1 hd' with hd' | hd'
    · exact hd'
    · have hmay := h.lists d (mem_all_of_mem_children hc hd) hd'
      rw [parent?_of_mem_children hd, Option.any_some, mayHaveFrames] at hmay
      exact absurd (beq_iff_eq.1 (Bool.and_eq_true_iff.1 hmay).2) hkind
  · rw [hblocks d hd hd', ownerIn?, parent?_of_mem_children hd, Option.bind_some]

/-- In an animation, declarations are in the list of frames. -/
theorem flatMap_declaredIn_list (hc : c ∈ (ofRoot root).all) (hmay : mayHaveFrames c = true)
    {owner : Option StyleNode}
    (hlists : ∀ d ∈ c.children, isKind "keyframe_block_list" d.node = true →
      declaredIn t d = declarationsIn owner (framesOf t d.node)) :
    c.children.flatMap (declaredIn t) = declarationsIn owner (Sheet.frames t c.node.children) := by
  obtain ⟨hstatement, hkind⟩ := Bool.and_eq_true_iff.1 hmay
  have hcontainer := h.blocksInStatements.isContainer_of_isStatement hc hstatement
  rw [frames_eq]
  refine h.flatMap_declaredIn_eq hc hcontainer (fun d hd hd' => ?_)
    (h.oneList _ (mem_all_ofRoot.1 hc).node_mem) hlists
  rcases isBlock_iff.1 hd' with hd' | hd'
  · have hmay := h.blocks d (mem_all_of_mem_children hc hd) hd'
    rw [parent?_of_mem_children hd, Option.any_some] at hmay
    simp only [mayHaveBlock, Bool.and_eq_true, bne_iff_ne] at hmay
    exact absurd (beq_iff_eq.1 hkind) hmay.1.2
  · exact hd'

/-- What stands in the sheet or in a block becomes what the statement there stands for. -/
theorem partOf?_of_holdsItems (hc : c ∈ (ofRoot root).all) (hp : c.parent? = some p)
    (hholds : holdsItems p = true) : partOf? t c = (statement t c.node).head? := by
  have hlist : isKind "keyframe_block_list" p.node = false := by
    rcases Bool.or_eq_true_iff.1 hholds with habove | hblock
    · have hroot : p.node = root := by
        obtain ⟨n, above⟩ := p
        rw [List.isEmpty_iff] at habove
        obtain rfl : above = [] := habove
        exact ((mem_all_ofRoot.1 hc).parent hp).1
      simp [isKind, hroot, h.sheet]
    · simp only [isKind, Bool.and_eq_true, beq_iff_eq] at hblock
      simp [isKind, hblock.2]
  simp [partOf?, hp, hlist]

/-- The declarations below a place in the sheet or in a block are those of what the node
stands for. -/
theorem declaredIn_statement (hc : c ∈ (ofRoot root).all) (hp : c.parent? = some p)
    (hholds : holdsItems p = true)
    (hblocks : ∀ d ∈ c.children, isKind "block" d.node = true →
      declaredIn t d = declarationsIn (ownerIn? t d) (itemsOf t d.node))
    (hlists : ∀ owner, ∀ d ∈ c.children, isKind "keyframe_block_list" d.node = true →
      declaredIn t d = declarationsIn owner (framesOf t d.node)) :
    declaredIn t c = declarationsIn (ownerIn? t p) (statement t c.node) := by
  have hpartOf : partOf? t c = (statement t c.node).head? := h.partOf?_of_holdsItems hc hp hholds
  rw [statement_eq] at hpartOf ⊢
  by_cases hnamed : c.node.isNamed = true
  swap
  · rw [h.declaredIn_token hc hp hnamed]
    simp [hnamed, declarationsIn]
  have hstatement : isStatement c = true := by
    simp [isStatement, hnamed, isInside, hp, isContainer_of_holdsItems hholds]
  by_cases hdeclaration : c.node.kind = "declaration"
  · have hcontainer := h.blocksInStatements.isContainer_of_isStatement hc hstatement
    rw [h.declaredIn_declaration hc hp hcontainer (by simp [isKind, hnamed, hdeclaration])]
    simp [hnamed, hdeclaration]
  have hnone : declaredAt? t c = none := by simp [declaredAt?, isKind, hdeclaration]
  by_cases hrule : c.node.kind = "rule_set"
  · rw [declaredIn_eq, hnone, h.flatMap_declaredIn_block hc
      (by simp [mayHaveBlock, hstatement, hrule, isComment]) hblocks, hpartOf]
    simp [hnamed, hrule, declarationsIn, declarationsOf]
  by_cases hframes : c.node.kind = "keyframes_statement"
  · rw [declaredIn_eq, hnone, h.flatMap_declaredIn_list hc
      (by simp [mayHaveFrames, hstatement, hframes]) (hlists (partOf? t c)), hpartOf]
    simp [hnamed, hframes, declarationsIn, declarationsOf]
  by_cases hcomment : isComment c.node = true
  · rw [h.declaredIn_comment hc hp hcomment]
    simp [hdeclaration, hrule, hframes, hcomment, declarationsIn]
  -- any other statement is an at-rule, if it has a block at all
  rw [declaredIn_eq, hnone, h.flatMap_declaredIn_block hc
    (by simp [mayHaveBlock, hstatement, hdeclaration, hframes, hcomment]) hblocks, hpartOf]
  by_cases hhas : hasBlock c.node.children = true
  · simp [hnamed, hdeclaration, hrule, hframes, hcomment, hhas, declarationsIn, declarationsOf]
  · simp [hnamed, hdeclaration, hrule, hframes, hcomment, hhas, blockItems_eq_nil hhas,
      declarationsIn]

/-- The declarations below a place in a list of frames are those of the frame there. -/
theorem declaredIn_frame (hc : c ∈ (ofRoot root).all) (hp : c.parent? = some p)
    (hlist : isKind "keyframe_block_list" p.node = true)
    (hblocks : ∀ d ∈ c.children, isKind "block" d.node = true →
      declaredIn t d = declarationsIn (ownerIn? t d) (itemsOf t d.node))
    (owner : Option StyleNode) :
    declaredIn t c = declarationsIn owner (frameBlocks t [c.node]) := by
  obtain ⟨hparent, hpart⟩ := (mem_all_ofRoot.1 hc).parent hp
  have hinside : isInside c = true := by
    simp [isInside, hp, isContainer_of_isBlock (isBlock_iff.2 (Or.inr hlist))]
  by_cases hframe : isKind "keyframe_block" c.node = true
  · obtain ⟨hnamed, hkind⟩ := Bool.and_eq_true_iff.1 hframe
    have hkind : c.node.kind = "keyframe_block" := beq_iff_eq.1 hkind
    have hmay : mayHaveBlock c = true := by
      simp [mayHaveBlock, isStatement, hnamed, hinside, hkind, isComment]
    have hnone : declaredAt? t c = none := by simp [declaredAt?, isKind, hkind]
    have hpartOf : partOf? t c = (frameBlocks t [c.node]).head? := by simp [partOf?, hp, hlist]
    rw [declaredIn_eq, hnone, h.flatMap_declaredIn_block hc hmay hblocks, hpartOf,
      frameBlocks_singleton, if_pos hframe]
    simp [declarationsIn, declarationsOf]
  · have hbare : declaredIn t c = [] := by
      by_cases hnamed : c.node.isNamed = true
      · rcases h.frames p.node hparent.node_mem hlist c.node (node_mem_of_mem_children hpart)
          hnamed with hkind | hcomment
        · exact absurd (by simp [isKind, hnamed, hkind]) hframe
        · exact h.declaredIn_comment hc hp hcomment
      · exact h.declaredIn_token hc hp hnamed
    rw [hbare, frameBlocks_singleton, if_neg hframe]
    simp [declarationsIn]

/-- The declarations below a place are those of what is built there: from a statement in the
sheet or in a block, from a frame, from a block and from a list of frames. -/
theorem declaredIn_spec (hc : c ∈ (ofRoot root).all) :
    (∀ p, c.parent? = some p → holdsItems p = true →
      declaredIn t c = declarationsIn (ownerIn? t p) (statement t c.node)) ∧
    (∀ p owner, c.parent? = some p → isKind "keyframe_block_list" p.node = true →
      declaredIn t c = declarationsIn owner (frameBlocks t [c.node])) ∧
    (isKind "block" c.node = true →
      declaredIn t c = declarationsIn (ownerIn? t c) (itemsOf t c.node)) ∧
    ∀ owner, isKind "keyframe_block_list" c.node = true →
      declaredIn t c = declarationsIn owner (framesOf t c.node) := by
  induction c using Cursor.induction with
  | step c ih =>
    have hmem : ∀ d ∈ c.children, d ∈ (ofRoot root).all :=
      fun d hd => mem_all_of_mem_children hc hd
    have hblocks : ∀ d ∈ c.children, isKind "block" d.node = true →
        declaredIn t d = declarationsIn (ownerIn? t d) (itemsOf t d.node) :=
      fun d hd => (ih d hd (hmem d hd)).2.2.1
    have hlists : ∀ owner, ∀ d ∈ c.children, isKind "keyframe_block_list" d.node = true →
        declaredIn t d = declarationsIn owner (framesOf t d.node) :=
      fun owner d hd => (ih d hd (hmem d hd)).2.2.2 owner
    refine ⟨fun p hp hholds => ?_, fun p owner hp hlist => ?_, fun hblock => ?_,
      fun owner hlist => ?_⟩
    · exact h.declaredIn_statement hc hp hholds hblocks hlists
    · exact h.declaredIn_frame hc hp hlist hblocks owner
    · have hkind : c.node.kind = "block" := beq_iff_eq.1 (Bool.and_eq_true_iff.1 hblock).2
      have hnone : declaredAt? t c = none := by simp [declaredAt?, isKind, hkind]
      have hholds : holdsItems c = true := by simp [holdsItems, hblock]
      rw [declaredIn_eq, hnone, Option.toList_none, List.nil_append, itemsOf, items_eq_flatMap,
        declarationsIn_flatMap, flatMap_node_children]
      exact List.flatMap_congr fun d hd =>
        (ih d hd (hmem d hd)).1 c (parent?_of_mem_children hd) hholds
    · have hkind : c.node.kind = "keyframe_block_list" :=
        beq_iff_eq.1 (Bool.and_eq_true_iff.1 hlist).2
      have hnone : declaredAt? t c = none := by simp [declaredAt?, isKind, hkind]
      rw [declaredIn_eq, hnone, Option.toList_none, List.nil_append, framesOf,
        frameBlocks_eq_flatMap, declarationsIn_flatMap, flatMap_node_children]
      exact List.flatMap_congr fun d hd =>
        (ih d hd (hmem d hd)).2.1 c owner (parent?_of_mem_children hd) hlist

/-- The declarations of a sheet, each with the part it is directly in, are those of the tree,
in the order of the tree. -/
theorem declarationsIn_ofTree :
    declarationsIn none (ofTree t root) = declaredIn t (ofRoot root) := by
  have hnone : declaredAt? t (ofRoot root) = none := by
    simp [declaredAt?, isKind, ofRoot, h.sheet]
  have hholds : holdsItems (ofRoot root) = true := rfl
  rw [declaredIn_eq, hnone, Option.toList_none, List.nil_append, ofTree, items_eq_flatMap,
    declarationsIn_flatMap]
  refine (flatMap_node_children _ (ofRoot root)).trans
    (List.flatMap_congr fun d hd => ?_)
  exact ((h.declaredIn_spec (mem_all_of_mem_children (self_mem_all _) hd)).1 (ofRoot root)
    (parent?_of_mem_children hd) hholds).symm

/-! ## Order -/

/-- Declarations start one behind the other. -/
theorem pairwise_start (hplaced : root.IsPlaced t) :
    (declaredIn t (ofRoot root)).Pairwise fun x y => x.2.span.start < y.2.span.start := by
  rw [declaredIn, List.pairwise_filterMap]
  refine (pairwise_all (c := ofRoot root) hplaced).imp_of_mem
    fun {c e} hc he hce x hx y hy => ?_
  obtain ⟨hkind, -, hx⟩ := declaredAt?_eq_some.1 hx
  obtain ⟨hkind', -, hy⟩ := declaredAt?_eq_some.1 hy
  rw [start_of_declaration? hx, start_of_declaration? hy]
  have hsolid := h.solid _ (mem_all_ofRoot.1 hc).node_mem hkind
  rcases hce with habove | hstop
  · -- around a declaration there is no other one
    obtain ⟨p, hp, hholds⟩ := (Option.any_eq_true _ _).1 (h.declarations e he hkind')
    have hinside : isInside e = true := by
      simp [isInside, hp, isContainer_of_holdsItems hholds]
    rw [(h.not_isKind_of_mem_ancestors (mem_all_ofRoot.1 he)).2 hinside _ habove] at hkind
    cases hkind
  · omega

end IsGrammatical

/-! ## Whole sheets -/

/-- Whether there is a declaration with a property at a place. -/
def isDeclared (c : Cursor) : Bool :=
  isKind "declaration" c.node && (c.node.childOfKind "property_name").isSome

/-- Whether something is the part of a sheet that a declaration at a place is directly in. -/
inductive IsOwner (t : Text) (c : Cursor) : Option StyleNode → Prop
  /-- Directly in the sheet it is in no part. -/
  | sheet {root : Cursor} (hroot : c.parent? = some root) (htop : root.parent? = none) :
      IsOwner t c none
  /-- In the block of a style rule it is in what the rule becomes. -/
  | rule {block rule : Cursor} {selectors : List String} {inner : Sheet}
      (hblock : c.parent? = some block) (hkind : isKind "block" block.node = true)
      (hrule : block.parent? = some rule) (hset : rule.node.kind = "rule_set")
      (hbuilt : statement t rule.node = [.rule selectors inner]) :
      IsOwner t c (some (.rule selectors inner))
  /-- In the block of another statement, or of a frame, it is in what this becomes. -/
  | atRule {block rule : Cursor} {name : String} {inner : Sheet}
      (hblock : c.parent? = some block) (hkind : isKind "block" block.node = true)
      (hrule : block.parent? = some rule) (hset : rule.node.kind ≠ "rule_set")
      (hbuilt : statement t rule.node = [.atRule name inner] ∨
        frameBlocks t [rule.node] = [.atRule name inner]) :
      IsOwner t c (some (.atRule name inner))

/-- What members of a class are mapped to, when nothing else is mapped to anything. -/
theorem forall₂_filterMap {α β : Type} {p : α → Bool} {f : α → Option β} {R : α → β → Prop}
    {as : List α} (hp : ∀ a ∈ as, p a = (f a).isSome) (hR : ∀ a ∈ as, ∀ b, f a = some b → R a b) :
    List.Forall₂ R (as.filter p) (as.filterMap f) := by
  induction as with
  | nil => exact .nil
  | cons a as ih =>
    have hrest := ih (fun b hb => hp b (List.mem_cons_of_mem _ hb))
      fun b hb => hR b (List.mem_cons_of_mem _ hb)
    have ha := hp a List.mem_cons_self
    cases hf : f a with
    | none =>
      rw [hf] at ha
      rw [List.filter_cons_of_neg (by simp [ha]), List.filterMap_cons_none hf]
      exact hrest
    | some b =>
      rw [hf] at ha
      rw [List.filter_cons_of_pos (by simp [ha]), List.filterMap_cons_some hf]
      exact .cons (hR a List.mem_cons_self b hf) hrest

/-- What stands in the block of a statement is directly in what the statement becomes. -/
theorem IsGrammatical.isOwner_partOf? {root : Node} {t : Text} {c p s : Cursor}
    (h : IsGrammatical root) (hs : s ∈ (ofRoot root).all) (hp : c.parent? = some p)
    (hblock : isKind "block" p.node = true) (hparent : p.parent? = some s)
    (hpart : p ∈ s.children) (hmay : mayHaveBlock s = true) : IsOwner t c (partOf? t s) := by
  simp only [mayHaveBlock, Bool.and_eq_true, bne_iff_ne, Bool.not_eq_true'] at hmay
  obtain ⟨⟨⟨hstatement, hdeclaration⟩, hanimation⟩, hcomment⟩ := hmay
  obtain ⟨hnamed, hinside⟩ := Bool.and_eq_true_iff.1 hstatement
  obtain ⟨g, hg, hcontainer⟩ := (Option.any_eq_true _ _).1 hinside
  obtain ⟨hin, hmem⟩ := (mem_all_ofRoot.1 hs).parent hg
  by_cases hlist : isKind "keyframe_block_list" g.node = true
  · -- a frame
    have hkind : s.node.kind = "keyframe_block" := by
      rcases h.frames g.node hin.node_mem hlist s.node (node_mem_of_mem_children hmem) hnamed
        with hkind | hother
      · exact hkind
      · rw [hcomment] at hother
        cases hother
    have hbuilt := frameBlocks_singleton t s.node
    rw [if_pos (by simp [isKind, hnamed, hkind])] at hbuilt
    rw [show partOf? t s = (frameBlocks t [s.node]).head? by simp [partOf?, hg, hlist], hbuilt]
    exact .atRule hp hblock hparent (by simp [hkind]) (Or.inr hbuilt)
  · have hholds : holdsItems g = true := by
      rcases Bool.or_eq_true_iff.1 hcontainer with habove | hblock'
      · simp [holdsItems, habove]
      · simp [holdsItems, (isBlock_iff.1 hblock').resolve_right hlist]
    have hbuilt := statement_eq t s.node
    rw [h.partOf?_of_holdsItems hs hg hholds]
    by_cases hrule : s.node.kind = "rule_set"
    · simp only [hnamed, hrule] at hbuilt
      rw [hbuilt]
      exact .rule hp hblock hparent hrule hbuilt
    · have hhas : hasBlock s.node.children = true :=
        List.any_eq_true.2 ⟨p.node, node_mem_of_mem_children hpart, hblock⟩
      simp only [hnamed, hdeclaration, hrule, hanimation, hcomment, hhas] at hbuilt
      rw [hbuilt]
      exact .atRule hp hblock hparent hrule (Or.inl hbuilt)

/-- What a declaration is directly in is what the statement of its block becomes. -/
theorem IsGrammatical.isOwner_bind {root : Node} {t : Text} {c : Cursor} (h : IsGrammatical root)
    (hc : c ∈ (ofRoot root).all) (hkind : isKind "declaration" c.node = true) :
    IsOwner t c (c.parent?.bind (ownerIn? t)) := by
  obtain ⟨p, hp, hholds⟩ := (Option.any_eq_true _ _).1 (h.declarations c hc hkind)
  have hparent := ((mem_all_ofRoot.1 hc).parent hp).1
  rw [hp, Option.bind_some]
  by_cases hblock : isKind "block" p.node = true
  · obtain ⟨s, hs, hmay⟩ :=
      (Option.any_eq_true _ _).1 (h.blocks p (mem_all_ofRoot.2 hparent) hblock)
    obtain ⟨hin, hpart⟩ := hparent.parent hs
    rw [ownerIn?, hs, Option.bind_some]
    exact h.isOwner_partOf? (mem_all_ofRoot.2 hin) hp hblock hs hpart hmay
  · have habove : p.above = [] := by simpa [holdsItems, hblock] using hholds
    have htop : p.parent? = none := by simp [parent?, habove]
    rw [ownerIn?, htop, Option.bind_none]
    exact .sheet hp htop

/-- **A sheet keeps the declarations of its tree.**  In a tree as the grammar gives it, a walk
through the sheet comes by the declarations that have a property, in the order of the tree,
each starting in front of the next one, once each and by no others.  Each is directly in the
style rule whose block it is directly in, or else in an at-rule or in nothing; its range and
its value are what its node has of them. -/
theorem forall₂_declarationsIn {t : Text} {root : Node} (h : IsGrammatical root)
    (hplaced : root.IsPlaced t) :
    List.Forall₂ (fun c x => IsOwner t c x.1 ∧ Describes t c.node x.2)
        ((ofRoot root).all.filter isDeclared) (declarationsIn none (ofTree t root)) ∧
      (declarationsIn none (ofTree t root)).Pairwise fun x y => x.2.span.start < y.2.span.start := by
  rw [h.declarationsIn_ofTree]
  refine ⟨forall₂_filterMap (fun c _ => ?_) fun c hc x hx => ?_, h.pairwise_start hplaced⟩
  · by_cases hkind : isKind "declaration" c.node = true
    · simp [isDeclared, declaredAt?, hkind, declaration?]
    · simp [isDeclared, declaredAt?, hkind]
  · obtain ⟨hkind, howner, hd⟩ := declaredAt?_eq_some.1 hx
    rw [howner]
    exact ⟨h.isOwner_bind hc hkind,
      describes_declaration? (hplaced.below (mem_all_ofRoot.1 hc).node_mem) hd⟩

/-- A sheet with a style rule and an animation. -/
def mixedText : Text := "a\x7bb:c\x7d@keyframes k\x7bto\x7bd:e;\x7d\x7d".toList

/-- The tree of this sheet. -/
def mixedSheet : Node :=
  let rule := .construct "rule_set" 0 6
    [.construct "selectors" 0 1 [.construct "tag_name" 0 1],
     .construct "block" 1 6
      [.token "\x7b" 1,
       .construct "declaration" 2 5
        [.construct "property_name" 2 3, .token ":" 3, .construct "plain_value" 4 5],
       .token "\x7d" 5]]
  let frame := .construct "keyframe_block" 19 27
    [.construct "to" 19 21,
     .construct "block" 21 27
      [.token "\x7b" 21,
       .construct "declaration" 22 26
        [.construct "property_name" 22 23, .token ":" 23, .construct "plain_value" 24 25,
         .token ";" 25],
       .token "\x7d" 26]]
  .construct "stylesheet" 0 28
    [rule,
     .construct "keyframes_statement" 6 28
      [.construct "at_keyword" 6 16, .construct "keyframes_name" 17 18,
       .construct "keyframe_block_list" 18 28 [.token "\x7b" 18, frame, .token "\x7d" 27]]]

/-- One of the two declarations of this sheet is in the rule, the other in the frame. -/
theorem forall₂_mixedSheet :
    IsGrammatical mixedSheet ∧ mixedSheet.IsPlaced mixedText ∧
      (declarationsIn none (ofTree mixedText mixedSheet)).map (·.2) =
        [⟨"b", "c", ⟨2, 5⟩, ⟨1, 3⟩⟩, ⟨"d", "e", ⟨22, 25⟩, ⟨1, 23⟩⟩] ∧
      List.Forall₂ (fun c x => IsOwner mixedText c x.1 ∧ Describes mixedText c.node x.2)
        ((ofRoot mixedSheet).all.filter isDeclared)
        (declarationsIn none (ofTree mixedText mixedSheet)) := by
  have hshape : IsGrammatical mixedSheet := by decide
  have hplaced : mixedSheet.IsPlaced mixedText := by decide
  exact ⟨hshape, hplaced, by decide +kernel, (forall₂_declarationsIn hshape hplaced).1⟩

end Sheet
end WebLint
