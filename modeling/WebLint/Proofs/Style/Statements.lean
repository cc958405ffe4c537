import WebLint.Proofs.Tree.Surroundings
import WebLint.Style.Sheet
import WebLint.Style.VendorPrefix

/-!
# Where the statements of a stylesheet stand

The statements of a sheet are the constructs directly in it and in its blocks, and blocks are
parts of statements.  The grammar says more: which statements have a block, or a list of
frames, and where declarations stand.

What is proved here:

* `BlocksInStatements.isInside_eq_false` — where blocks are parts of statements, none is a
  statement itself;
* `IsGrammatical.not_isKind_of_mem_ancestors` — around a declaration there is no other one.
-/

namespace WebLint

open Node Cursor

namespace StyleCheck

/-! ## Statements and blocks -/

/-- Whether a node is a block of statements or a list of frames. -/
def isBlock (n : Node) : Bool := n.isNamed && VendorPrefix.holdsStatements n.kind

/-- Whether the children of a place are statements: those of the root and of blocks are. -/
def isContainer (c : Cursor) : Bool := c.above.isEmpty || isBlock c.node

/-- Whether a place is directly in the sheet or in a block. -/
def isInside (c : Cursor) : Bool := c.parent?.any isContainer

/-- Whether there is a statement at a place. -/
def isStatement (c : Cursor) : Bool := c.node.isNamed && isInside c

/-- Whether each block of a tree is part of a statement. -/
def BlocksInStatements (root : Node) : Prop :=
  ∀ c ∈ (ofRoot root).all, isBlock c.node = true → c.parent?.any isStatement = true

instance (root : Node) : Decidable (BlocksInStatements root) :=
  inferInstanceAs (Decidable (∀ c ∈ _, _ → _))

section

variable {c d : Cursor}

theorem isInside_of_mem_children (h : d ∈ c.children) : isInside d = isContainer c := by
  rw [isInside, parent?_of_mem_children h, Option.any_some]

/-- A place with a parent is a container when there is a block at it. -/
theorem isContainer_of_mem_children (h : d ∈ c.children) : isContainer d = isBlock d.node := by
  obtain ⟨i, hi⟩ := above_of_mem_children h
  simp [isContainer, hi]

theorem isContainer_of_isBlock (h : isBlock c.node = true) : isContainer c = true := by
  simp [isContainer, h]

end

namespace BlocksInStatements

variable {root : Node} {c d : Cursor} (h : BlocksInStatements root)
include h

/-- A block is no statement itself. -/
theorem isInside_eq_false (hc : c ∈ (ofRoot root).all) (hblock : isBlock c.node = true) :
    isInside c = false := by
  refine IsIn.induction (motive := fun c => isBlock c.node = true → isInside c = false)
    (fun _ => rfl) (fun p hp ih c hmem hblock => ?_) (mem_all_ofRoot.1 hc) hblock
  have howner := h c (mem_all_ofRoot.2 (hp.of_mem_children hmem)) hblock
  rw [parent?_of_mem_children hmem, Option.any_some] at howner
  have hinside : isInside p = true := (Bool.and_eq_true_iff.1 howner).2
  rw [isInside_of_mem_children hmem]
  -- the statement is below the root, and cannot be a block in turn
  by_cases hroot : p.above = []
  · simp [isInside, parent?, hroot] at hinside
  by_cases hp' : isBlock p.node = true
  · rw [ih hp'] at hinside
    cases hinside
  · simp [isContainer, hroot, hp']

theorem isBlock_of_isStatement (hc : c ∈ (ofRoot root).all) (hstatement : isStatement c = true) :
    isBlock c.node = false := by
  by_cases hblock : isBlock c.node = true
  · rw [isStatement, h.isInside_eq_false hc hblock, Bool.and_false] at hstatement
    cases hstatement
  · simpa using hblock

/-- What a statement consists of are no statements. -/
theorem isContainer_of_isStatement (hc : c ∈ (ofRoot root).all)
    (hstatement : isStatement c = true) : isContainer c = false := by
  have hblock := h.isBlock_of_isStatement hc hstatement
  obtain ⟨n, above⟩ := c
  cases above with
  | nil => simp [isStatement, isInside, parent?] at hstatement
  | cons s above => simp [isContainer, hblock]

/-- A part of a statement is not a statement, and holds some only if it is a block. -/
theorem part_of_statement (hc : c ∈ (ofRoot root).all) (howner : c.parent?.any isStatement = true) :
    isInside c = false ∧ isContainer c = isBlock c.node := by
  obtain ⟨p, hp, hstatement⟩ := (Option.any_eq_true _ _).1 howner
  obtain ⟨hparent, hpart⟩ := (mem_all_ofRoot.1 hc).parent hp
  rw [isInside_of_mem_children hpart, isContainer_of_mem_children hpart]
  exact ⟨h.isContainer_of_isStatement (mem_all_ofRoot.2 hparent) hstatement, rfl⟩

/-- What is part of something that is no statement is no block. -/
theorem isBlock_of_not_isStatement (hd : d ∈ (ofRoot root).all) (hchild : d ∈ c.children)
    (hstatement : isStatement c = false) : isBlock d.node = false := by
  by_cases hblock : isBlock d.node = true
  · have howner := h d hd hblock
    rw [parent?_of_mem_children hchild, Option.any_some, hstatement] at howner
    cases howner
  · simpa using hblock

/-- A property passes down from a place where there is neither a statement nor a container:
what is below such a place is no statement and no container either. -/
theorem not_isInside_of_mem_children (hd : d ∈ (ofRoot root).all) (hchild : d ∈ c.children)
    (hinside : isInside c = false) (hcontainer : isContainer c = false) :
    isInside d = false ∧ isContainer d = false := by
  have hstatement : isStatement c = false := by simp [isStatement, hinside]
  refine ⟨by rw [isInside_of_mem_children hchild, hcontainer], ?_⟩
  rw [isContainer_of_mem_children hchild, h.isBlock_of_not_isStatement hd hchild hstatement]

end BlocksInStatements

end StyleCheck

namespace Sheet

open StyleCheck

/-! ## The shape of a sheet -/

/-- Whether a node is a construct of a kind. -/
def isKind (kind : String) (n : Node) : Bool := n.isNamed && n.kind == kind

/-- Whether declarations may stand directly at a place: in the sheet and in blocks. -/
def holdsItems (c : Cursor) : Bool := c.above.isEmpty || isKind "block" c.node

/-- Whether there is a statement at a place that may have a block of its own. -/
def mayHaveBlock (c : Cursor) : Bool :=
  isStatement c && c.node.kind != "declaration" && c.node.kind != "keyframes_statement" &&
    !isComment c.node

/-- Whether there is a statement at a place that may have a list of frames. -/
def mayHaveFrames (c : Cursor) : Bool := isStatement c && c.node.kind == "keyframes_statement"

/-- Whether blocks, frames and declarations stand where the grammar has them. -/
structure IsGrammatical (root : Node) : Prop where
  /-- The root is a stylesheet. -/
  sheet : root.kind = "stylesheet"
  /-- A block is part of a statement other than a declaration, a comment or an animation. -/
  blocks : ∀ c ∈ (ofRoot root).all, isKind "block" c.node = true →
    c.parent?.any mayHaveBlock = true
  /-- A list of frames is part of an animation. -/
  lists : ∀ c ∈ (ofRoot root).all, isKind "keyframe_block_list" c.node = true →
    c.parent?.any mayHaveFrames = true
  /-- It holds frames, and perhaps comments. -/
  frames : ∀ n ∈ root.preorder, isKind "keyframe_block_list" n = true →
    ∀ c ∈ n.children, c.isNamed = true → c.kind = "keyframe_block" ∨ isComment c = true
  /-- A statement has no more than one block. -/
  oneBlock : ∀ n ∈ root.preorder, (n.children.filter (isKind "block")).length ≤ 1
  /-- It has no more than one list of frames. -/
  oneList : ∀ n ∈ root.preorder, (n.children.filter (isKind "keyframe_block_list")).length ≤ 1
  /-- A declaration stands directly in the sheet or in a block. -/
  declarations : ∀ c ∈ (ofRoot root).all, isKind "declaration" c.node = true →
    c.parent?.any holdsItems = true
  /-- It covers some bytes. -/
  solid : ∀ n ∈ root.preorder, isKind "declaration" n = true → n.start < n.stop

instance (root : Node) : Decidable (IsGrammatical root) :=
  decidable_of_iff
    (root.kind = "stylesheet" ∧
      (∀ c ∈ (ofRoot root).all, isKind "block" c.node = true →
        c.parent?.any mayHaveBlock = true) ∧
      (∀ c ∈ (ofRoot root).all, isKind "keyframe_block_list" c.node = true →
        c.parent?.any mayHaveFrames = true) ∧
      (∀ n ∈ root.preorder, isKind "keyframe_block_list" n = true →
        ∀ c ∈ n.children, c.isNamed = true → c.kind = "keyframe_block" ∨ isComment c = true) ∧
      (∀ n ∈ root.preorder, (n.children.filter (isKind "block")).length ≤ 1) ∧
      (∀ n ∈ root.preorder, (n.children.filter (isKind "keyframe_block_list")).length ≤ 1) ∧
      (∀ c ∈ (ofRoot root).all, isKind "declaration" c.node = true →
        c.parent?.any holdsItems = true) ∧
      ∀ n ∈ root.preorder, isKind "declaration" n = true → n.start < n.stop)
    ⟨fun ⟨hr, hb, hl, hf, h1, h2, hd, hs⟩ => ⟨hr, hb, hl, hf, h1, h2, hd, hs⟩,
      fun ⟨hr, hb, hl, hf, h1, h2, hd, hs⟩ => ⟨hr, hb, hl, hf, h1, h2, hd, hs⟩⟩

/-- Blocks and lists of frames are what holds statements. -/
theorem isBlock_iff {n : Node} :
    isBlock n = true ↔ isKind "block" n = true ∨ isKind "keyframe_block_list" n = true := by
  simp only [isBlock, VendorPrefix.holdsStatements, isKind, Bool.and_eq_true, Bool.or_eq_true]
  exact and_or_left

theorem isContainer_of_holdsItems {c : Cursor} (h : holdsItems c = true) :
    isContainer c = true := by
  rcases Bool.or_eq_true_iff.1 h with habove | hblock
  · simp [isContainer, habove]
  · exact isContainer_of_isBlock (isBlock_iff.2 (Or.inl hblock))

namespace IsGrammatical

variable {root : Node} {c : Cursor} (h : IsGrammatical root)
include h

/-- Blocks and lists of frames are parts of statements other than declarations. -/
theorem exists_statement_of_isBlock (hc : c ∈ (ofRoot root).all) (hblock : isBlock c.node = true) :
    ∃ p, c.parent? = some p ∧ isStatement p = true ∧ p.node.kind ≠ "declaration" := by
  rcases isBlock_iff.1 hblock with hkind | hkind
  · obtain ⟨p, hp, hmay⟩ := (Option.any_eq_true _ _).1 (h.blocks c hc hkind)
    simp only [mayHaveBlock, Bool.and_eq_true, bne_iff_ne] at hmay
    exact ⟨p, hp, hmay.1.1.1, hmay.1.1.2⟩
  · obtain ⟨p, hp, hmay⟩ := (Option.any_eq_true _ _).1 (h.lists c hc hkind)
    obtain ⟨hstatement, hanimation⟩ := Bool.and_eq_true_iff.1 hmay
    exact ⟨p, hp, hstatement, by simp [beq_iff_eq.1 hanimation]⟩

theorem blocksInStatements : BlocksInStatements root := by
  intro c hc hblock
  obtain ⟨p, hp, hstatement, -⟩ := h.exists_statement_of_isBlock hc hblock
  rw [hp]
  exact hstatement

/-- No declaration is around a container, or around a statement. -/
theorem not_isKind_of_mem_ancestors (hc : c.IsIn root) :
    (isContainer c = true → ∀ a ∈ c.node :: c.ancestors, isKind "declaration" a = false) ∧
      (isInside c = true → ∀ a ∈ c.ancestors, isKind "declaration" a = false) := by
  refine IsIn.induction (motive := fun c =>
      (isContainer c = true → ∀ a ∈ c.node :: c.ancestors, isKind "declaration" a = false) ∧
        (isInside c = true → ∀ a ∈ c.ancestors, isKind "declaration" a = false)) ?_ ?_ hc
  · simp [isKind, ofRoot, ancestors, isInside, parent?, h.sheet]
  · intro p hp ih c hmem
    have hc := mem_all_ofRoot.2 (hp.of_mem_children hmem)
    rw [ancestors_of_mem_children hmem, isContainer_of_mem_children hmem,
      isInside_of_mem_children hmem]
    refine ⟨fun hblock a ha => ?_, ih.1⟩
    obtain ⟨q, hq, hstatement, hkind⟩ := h.exists_statement_of_isBlock hc hblock
    obtain rfl : p = q := Option.some.inj ((parent?_of_mem_children hmem).symm.trans hq)
    rcases List.mem_cons.1 ha with rfl | ha
    · rcases isBlock_iff.1 hblock with hblock | hlist
      · simp [isKind, beq_iff_eq.1 (Bool.and_eq_true_iff.1 hblock).2]
      · simp [isKind, beq_iff_eq.1 (Bool.and_eq_true_iff.1 hlist).2]
    rcases List.mem_cons.1 ha with rfl | ha
    · simp [isKind, hkind]
    · exact ih.2 (Bool.and_eq_true_iff.1 hstatement).2 a ha

end IsGrammatical

end Sheet
end WebLint
