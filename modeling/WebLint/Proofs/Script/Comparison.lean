import WebLint.Proofs.Tree
import WebLint.Proofs.Tree.Moves
import WebLint.Script.Comparison

/-!
# Comparisons to NaN in parentheses

An operand may stand in parentheses, and these in further ones, with comments among them.  The
rule about comparisons to `NaN` goes into parentheses, to the first named node in them.  This is
the operand, unless a comment stands in front of it.

What is proved here:

* `IsCopy.isNaN_eq` — what is written is told from the text alone, wherever it stands;
* `isNaN_wrap` — an operand in parentheses is taken for `NaN` when it is written so and no
  comment stands in front of it;
* `report_wrapped_iff` — so parentheses around an operand of a comparison matter just when there
  is such a comment, and the comparison is one to `NaN` by this operand alone.
-/

namespace WebLint

/-- A node that fills a field of its parent, or none. -/
def Node.withField (field : Option String) : Node → Node
  | .mk l cs => .mk { l with field := field } cs

namespace Comparison

open Node

variable {t t' : Text} {n n' : Node}

/-! ## What is written -/

/-- A search among the children of a node goes for the first named one. -/
theorem firstIsNaN_eq (t : Text) (cs : List Node) :
    firstIsNaN t cs = (cs.find? (·.isNamed)).any (isNaN t) := by
  induction cs with
  | nil => rfl
  | cons c cs ih =>
    rw [firstIsNaN, List.find?_cons]
    cases c.isNamed with
    | true => rfl
    | false => exact ih

theorem isNaN_withField (t : Text) (field : Option String) (n : Node) :
    isNaN t (n.withField field) = isNaN t n := by
  obtain ⟨l, cs⟩ := n
  rw [withField, isNaN, isNaN]

/-- Whether one node is another one, as it stands in another text: with other ranges, where the
same is written, and perhaps in another field. -/
def IsCopy (t : Text) (n : Node) (t' : Text) (n' : Node) : Prop :=
  ∃ (g : Span → Span) (field : Option String), n' = (n.mapSpan g).withField field ∧
    ∀ m ∈ n.preorder, t'.at (g m.span) = m.text t

theorem isNaN_mapSpan {g : Span → Span} (h : ∀ m ∈ n.preorder, t'.at (g m.span) = m.text t) :
    isNaN t' (n.mapSpan g) = isNaN t n := by
  induction n using Node.induction with
  | step l cs ih =>
    have hfield : ∀ field, fieldText t' (cs.map (mapSpan g)) field = fieldText t cs field := by
      intro field
      rw [fieldText, fieldText, List.find?_map]
      simp only [Function.comp_def, field_mapSpan, Option.map_map]
      refine Option.map_congr fun c hc => ?_
      have hmem := List.mem_of_find?_eq_some hc
      rw [Node.text, span_mapSpan]
      exact h c (mem_preorder_of_child hmem (self_mem_preorder c))
    have hfirst : firstIsNaN t' (cs.map (mapSpan g)) = firstIsNaN t cs := by
      rw [firstIsNaN_eq, firstIsNaN_eq, List.find?_map]
      simp only [Function.comp_def, isNamed_mapSpan]
      cases hfind : cs.find? (·.isNamed) with
      | none => rfl
      | some c =>
        have hmem := List.mem_of_find?_eq_some hfind
        exact ih c hmem fun m hm => h m (mem_preorder_of_child hmem hm)
    have hself : t'.at (g l.span) = t.at l.span := h _ (self_mem_preorder _)
    rw [mapSpan, mapSpanAll_eq_map, isNaN, isNaN, hself, hfield, hfield, hfirst]

/-- What is written does not depend on where it stands. -/
theorem IsCopy.isNaN_eq (h : IsCopy t n t' n') : isNaN t' n' = isNaN t n := by
  obtain ⟨g, field, rfl, htext⟩ := h
  rw [isNaN_withField, isNaN_mapSpan htext]

theorem IsCopy.isNamed_eq (h : IsCopy t n t' n') : n'.isNamed = n.isNamed := by
  obtain ⟨g, field, rfl, -⟩ := h
  obtain ⟨l, cs⟩ := n
  rfl

/-! ## Parentheses -/

/-- Parentheses around an expression, with what else stands in them: tokens and comments. -/
structure Parens where
  /-- What the parentheses are. -/
  label : Label
  /-- What stands in front of the expression. -/
  front : List Node
  /-- What stands behind it. -/
  back : List Node
  /-- They are parentheses. -/
  kind_eq : label.kind = "parenthesized_expression"
  /-- Parentheses are a construct of the grammar. -/
  named : label.named = true
  /-- The constructs that stand in them are comments. -/
  comments : ∀ c ∈ front ++ back, c.isNamed = true → c.kind = "comment" ∨ c.kind = "html_comment"

namespace Parens

/-- An expression in parentheses. -/
def around (p : Parens) (n : Node) : Node := .mk p.label (p.front ++ n :: p.back)

/-- Whether a comment stands in front of the expression. -/
def hasCommentInFront (p : Parens) : Bool := p.front.any (·.isNamed)

variable {p : Parens}

theorem isNamed_around : (p.around n).isNamed = true := p.named

/-- An expression in parentheses is taken for `NaN` when it is written so and no comment stands
in front of it. -/
theorem isNaN_around (hnamed : n.isNamed = true) :
    isNaN t (p.around n) = (!p.hasCommentInFront && isNaN t n) := by
  have hfirst : isNaN t (p.around n) = firstIsNaN t (p.front ++ n :: p.back) := by
    rw [around, isNaN]
    simp [p.kind_eq]
  rw [hfirst, firstIsNaN_eq, List.find?_append]
  cases hfind : p.front.find? (·.isNamed) with
  | none =>
    have hnone : p.hasCommentInFront = false := by
      rw [hasCommentInFront, List.any_eq_false]
      exact List.find?_eq_none.1 hfind
    rw [hnone, Option.none_or, List.find?_cons_of_pos hnamed]
    rfl
  | some c =>
    have hmem := List.mem_of_find?_eq_some hfind
    have hc := List.find?_some hfind
    have hsome : p.hasCommentInFront = true := List.any_eq_true.2 ⟨c, hmem, hc⟩
    have hcomment : isNaN t c = false := by
      obtain ⟨l, cs⟩ := c
      have hkind : l.kind = "comment" ∨ l.kind = "html_comment" :=
        p.comments _ (List.mem_append_left _ hmem) hc
      rw [isNaN]
      rcases hkind with hkind | hkind <;> simp [hkind]
    rw [hsome]
    exact hcomment

end Parens

/-- An expression in some pairs of parentheses, the outermost pair first. -/
def wrap (ps : List Parens) (n : Node) : Node := ps.foldr Parens.around n

theorem wrap_cons (p : Parens) (ps : List Parens) (n : Node) :
    wrap (p :: ps) n = p.around (wrap ps n) := rfl

theorem isNamed_wrap (ps : List Parens) (hnamed : n.isNamed = true) :
    (wrap ps n).isNamed = true := by
  cases ps with
  | nil => exact hnamed
  | cons p ps => exact p.isNamed_around

/-- An operand in parentheses is taken for `NaN` when it is written so and no comment stands in
front of it. -/
theorem isNaN_wrap (ps : List Parens) (hnamed : n.isNamed = true) :
    isNaN t (wrap ps n) = (!ps.any Parens.hasCommentInFront && isNaN t n) := by
  induction ps with
  | nil => rfl
  | cons p ps ih =>
    rw [wrap_cons, Parens.isNaN_around (isNamed_wrap ps hnamed), ih, List.any_cons, Bool.not_or,
      Bool.and_assoc]

/-! ## Operands -/

/-- The two sides of a comparison. -/
inductive Side where
  /-- What stands in front of the operator. -/
  | left
  /-- What stands behind it. -/
  | right

/-- The field that the operand of a side fills. -/
def Side.field : Side → String
  | left => "left"
  | right => "right"

/-- The side across the operator. -/
def Side.other : Side → Side
  | left => right
  | right => left

/-- Whether one comparison is another one with the operand of a side put in parentheses. -/
structure Wraps (ps : List Parens) (side : Side) (t : Text) (n : Node) (t' : Text)
    (n' : Node) : Prop where
  /-- The operator is the same. -/
  operator :
    (n'.childByField "operator").map (·.kind) = (n.childByField "operator").map (·.kind)
  /-- So is the operand of the other side. -/
  other : Option.Rel (fun o o' => IsCopy t o t' o') (n.childByField side.other.field)
    (n'.childByField side.other.field)
  /-- The operand of the side, which is an expression, stands in the parentheses. -/
  operand : ∃ o o', n.childByField side.field = some o ∧ o.isNamed = true ∧ IsCopy t o t' o' ∧
    n'.childByField side.field = some ((wrap ps o').withField (some side.field))

/-- Whether an expression compares. -/
def compares (n : Node) : Bool :=
  ((n.childByField "operator").map (·.kind)).any operators.contains

theorem isSome_toNaN (side : Side) (t : Text) (n : Node) : (toNaN t n).isSome =
    (compares n && (operandIsNaN t n side.field || operandIsNaN t n side.other.field)) := by
  have hsides : (operandIsNaN t n side.field || operandIsNaN t n side.other.field) =
      (operandIsNaN t n "left" || operandIsNaN t n "right") := by
    cases side with
    | left => rfl
    | right => exact Bool.or_comm ..
  rw [hsides, toNaN, compares]
  cases n.childByField "operator" with
  | none => rfl
  | some operator =>
    rw [Option.bind_some, Option.map_some, Option.any_some]
    split
    · rename_i h
      exact h.symm
    · rename_i h
      exact (Bool.eq_false_iff.2 h).symm

namespace Wraps

variable {ps : List Parens} {side : Side} (h : Wraps ps side t n t' n')
include h

theorem compares_eq : compares n' = compares n := by rw [compares, compares, h.operator]

theorem operandIsNaN_other :
    operandIsNaN t' n' side.other.field = operandIsNaN t n side.other.field := by
  have hother := h.other
  unfold operandIsNaN
  generalize n.childByField side.other.field = o at hother
  generalize n'.childByField side.other.field = o' at hother
  cases hother with
  | none => rfl
  | some hcopy => exact hcopy.isNaN_eq

theorem operandIsNaN_eq : operandIsNaN t' n' side.field =
    (!ps.any Parens.hasCommentInFront && operandIsNaN t n side.field) := by
  obtain ⟨o, o', ho, hnamed, hcopy, ho'⟩ := h.operand
  have hnamed' : o'.isNamed = true := hcopy.isNamed_eq.trans hnamed
  unfold operandIsNaN
  rw [ho, ho']
  simp only
  rw [isNaN_withField, isNaN_wrap ps hnamed', hcopy.isNaN_eq]

end Wraps

/-- **When parentheses matter.**  A comparison with one of its operands in parentheses is
reported just when it is reported without them, unless it is a comparison to `NaN` by this
operand alone and a comment stands in front of the operand in one of the parentheses. -/
theorem report_wrapped_iff {ps : List Parens} {side : Side} (h : Wraps ps side t n t' n') :
    (toNaN t' n').isSome = (toNaN t n).isSome ↔
      ¬ (compares n = true ∧ operandIsNaN t n side.field = true ∧
        operandIsNaN t n side.other.field = false ∧
          ∃ p ∈ ps, p.hasCommentInFront = true) := by
  rw [isSome_toNaN side, isSome_toNaN side, h.compares_eq, h.operandIsNaN_eq,
    h.operandIsNaN_other, ← List.any_eq_true]
  cases compares n <;> cases operandIsNaN t n side.field <;>
    cases operandIsNaN t n side.other.field <;> cases ps.any Parens.hasCommentInFront <;> decide

/-! ### Comments behind and in front -/

/-- A comparison of `a` to an expression. -/
def comparisonTo (operand : Node) (stop : Nat) : Node :=
  .construct "binary_expression" 0 stop
    [(Node.construct "identifier" 0 1).withField (some "left"),
     (Node.token "===" 2).withField (some "operator"), operand.withField (some "right")]

/-- A name of three letters. -/
def nameAt (start : Nat) : Node := .construct "identifier" start (start + 3)

/-- A comparison to `NaN`. -/
def plainText : Text := "a === NaN".toList

/-- The name of this comparison in parentheses. -/
theorem wraps_comparisonTo (p : Parens) {t' : Text} {start : Nat} (stop : Nat)
    (hleft : t'.at ⟨0, 1⟩ = "a".toList) (hright : t'.at ⟨start, start + 3⟩ = "NaN".toList) :
    Wraps [p] .right plainText (comparisonTo (nameAt 6) 9) t'
      (comparisonTo (p.around (nameAt start)) stop) where
  operator := rfl
  other := by
    refine .some ⟨id, some "left", rfl, fun m hm => ?_⟩
    rw [List.mem_singleton.1 hm]
    exact hleft
  operand := by
    refine ⟨(nameAt 6).withField (some "right"), nameAt start, rfl, rfl,
      ⟨fun _ => ⟨start, start + 3⟩, none, rfl, fun m hm => ?_⟩, rfl⟩
    rw [List.mem_singleton.1 hm]
    exact hright

/-- The parentheses of `(NaN /* c */)`. -/
def commentBehind : Parens where
  label := ⟨"parenthesized_expression", true, none, ⟨6, 19⟩⟩
  front := [.token "(" 6]
  back := [.construct "comment" 11 18, .token ")" 18]
  kind_eq := rfl
  named := rfl
  comments := by decide

/-- A comment behind `NaN` changes nothing. -/
theorem report_commentBehind :
    Wraps [commentBehind] .right plainText (comparisonTo (nameAt 6) 9)
        "a === (NaN /* c */)".toList (comparisonTo (commentBehind.around (nameAt 7)) 19) ∧
      (toNaN "a === (NaN /* c */)".toList
          (comparisonTo (commentBehind.around (nameAt 7)) 19)).isSome =
        (toNaN plainText (comparisonTo (nameAt 6) 9)).isSome := by
  have hwraps : Wraps [commentBehind] .right plainText (comparisonTo (nameAt 6) 9)
      "a === (NaN /* c */)".toList (comparisonTo (commentBehind.around (nameAt 7)) 19) :=
    wraps_comparisonTo commentBehind 19 (by decide) (by decide)
  refine ⟨hwraps, (report_wrapped_iff hwraps).2 ?_⟩
  rintro ⟨-, -, -, p, hp, hfront⟩
  rw [List.mem_singleton.1 hp] at hfront
  cases hfront

/-- The parentheses of `(/* c */ NaN)`. -/
def commentInFront : Parens where
  label := ⟨"parenthesized_expression", true, none, ⟨6, 19⟩⟩
  front := [.token "(" 6, .construct "comment" 7 14]
  back := [.token ")" 18]
  kind_eq := rfl
  named := rfl
  comments := by decide

/-- A comment in front of `NaN` hides it. -/
theorem report_commentInFront :
    ¬ (Wraps [commentInFront] .right plainText (comparisonTo (nameAt 6) 9)
        "a === (/* c */ NaN)".toList (comparisonTo (commentInFront.around (nameAt 15)) 19) →
      (toNaN "a === (/* c */ NaN)".toList
          (comparisonTo (commentInFront.around (nameAt 15)) 19)).isSome =
        (toNaN plainText (comparisonTo (nameAt 6) 9)).isSome) := by
  intro h
  have hequal := h (wraps_comparisonTo commentInFront 19 (by decide) (by decide))
  revert hequal
  decide

end Comparison
end WebLint
