import WebLint.Proofs.Style.Duplicates
import WebLint.Proofs.Tree.Placement

/-!
# Selectors that describe a state

A selector is taken apart into a list of components, and it describes a state when one of
them does.  Here the same is said of its tree, without the list: some pseudo-class or
pseudo-element is a *part* of the selector.  The operands of a combinator are parts of it,
and of a compound selector the base is, which stands in front of the sigil; what stands
behind it, a name, the value of an attribute or the arguments of a function, is not.

What is proved here:

* `any_isState_parts` — the components of a node describe a state when a part of it does;
* `isStateful_iff` — and so do those of a selector that is parsed;
* `judge_iff` — how a list of selectors is judged.
-/

namespace WebLint
namespace Selector

/-! ## Parts -/

/-- The combinators. -/
def combinatorKinds : List String :=
  ["descendant_selector", "child_selector", "adjacent_sibling_selector", "sibling_selector"]

/-- The selectors that hold no others. -/
def simpleKinds : List String :=
  ["tag_name", "nesting_selector", "universal_selector", "namespace_selector"]

/-- The selectors that describe a state. -/
def stateKinds : List String := ["pseudo_class_selector", "pseudo_element_selector"]

/-- Whether a node is a part of a selector. -/
inductive HasPart : Node → Node → Prop
  /-- A selector is a part of itself. -/
  | self (n : Node) : HasPart n n
  /-- The parts of an operand are parts of the combinator. -/
  | operand {n c m : Node} : n.kind ∈ combinatorKinds → c ∈ n.children → c.isNamed = true →
      HasPart c m → HasPart n m
  /-- The parts of what stands in front of the first token, the sigil, are parts of the compound
  selector. -/
  | base {n c m : Node} {front behind : List Node} : n.kind ∉ combinatorKinds →
      n.kind ∉ simpleKinds → n.children = front ++ c :: behind →
      (∀ b ∈ front, b.isNamed = true) → c.isNamed = true → HasPart c m → HasPart n m

/-- Whether some part of a selector is a pseudo-class or a pseudo-element. -/
def HoldsState (n : Node) : Prop := ∃ m, HasPart n m ∧ m.kind ∈ stateKinds

/-- Whether the tree of a selector, in front of an empty block, has such a part. -/
def DescribesState (parser : Parser) (selector : String) : Prop :=
  ∃ selectors, selectorsNode? (parser .css (inRule selector) none).root = some selectors ∧
    ∃ n ∈ selectors.namedChildren, HoldsState n

variable {t : Text} {n : Node} {l : Label} {cs : List Node}

theorem stateKinds_apart {kind : String} (h : kind ∈ stateKinds) :
    kind ∉ combinatorKinds ∧ kind ∉ simpleKinds := by
  revert kind
  decide

/-- A combinator describes a state when an operand does. -/
theorem holdsState_of_combinator (h : l.kind ∈ combinatorKinds) :
    HoldsState (.mk l cs) ↔ ∃ c ∈ cs, c.isNamed = true ∧ HoldsState c := by
  constructor
  · rintro ⟨m, hm, hstate⟩
    cases hm with
    | self => exact absurd h (stateKinds_apart hstate).1
    | operand _ hc hnamed hm => exact ⟨_, hc, hnamed, m, hm, hstate⟩
    | base hnot => exact absurd h hnot
  · rintro ⟨c, hc, hnamed, m, hm, hstate⟩
    exact ⟨m, .operand h hc hnamed hm, hstate⟩

theorem not_holdsState_of_simple (h : l.kind ∈ simpleKinds) : ¬ HoldsState (.mk l cs) := by
  rintro ⟨m, hm, hstate⟩
  cases hm with
  | self => exact (stateKinds_apart hstate).2 h
  | operand hkind =>
    have hapart : ∀ kind ∈ combinatorKinds, kind ∉ simpleKinds := by decide
    exact hapart _ hkind h
  | base _ hnot => exact hnot h

/-- A compound selector describes a state when its base does, or when it is a pseudo-class or
a pseudo-element. -/
theorem holdsState_of_compound (hnot : l.kind ∉ combinatorKinds) (hcompound : l.kind ∉ simpleKinds) :
    HoldsState (.mk l cs) ↔
      (∃ front c behind, cs = front ++ c :: behind ∧ (∀ b ∈ front, b.isNamed = true) ∧
        c.isNamed = true ∧ HoldsState c) ∨ l.kind ∈ stateKinds := by
  constructor
  · rintro ⟨m, hm, hstate⟩
    cases hm with
    | self => exact Or.inr hstate
    | operand hyes => exact absurd hyes hnot
    | base _ _ hcs hfront hnamed hm => exact Or.inl ⟨_, _, _, hcs, hfront, hnamed, m, hm, hstate⟩
  · rintro (⟨front, c, behind, hcs, hfront, hnamed, m, hm, hstate⟩ | hstate)
    · exact ⟨m, .base hnot hcompound hcs hfront hnamed hm, hstate⟩
    · exact ⟨_, .self _, hstate⟩

/-! ## Components -/

theorem combinatorOf_eq_none_iff {kind : String} :
    combinatorOf kind = none ↔ kind ∉ combinatorKinds := by
  grind [combinatorOf, combinatorKinds]

theorem simplePart_eq_none_iff {kind text : String} :
    simplePart kind text = none ↔ kind ∉ simpleKinds := by
  grind [simplePart, simpleKinds]

theorem isState_of_simplePart {kind text : String} {part : SelectorPart}
    (h : simplePart kind text = some part) : part.isState = false := by
  grind [simplePart, SelectorPart.isState]

/-- The component that a compound selector ends with describes a state when the selector is a
pseudo-class or a pseudo-element. -/
theorem any_isState_namedPart {kind name : String} :
    (namedPart kind name).toList.any SelectorPart.isState = true ↔ kind ∈ stateKinds := by
  grind [namedPart, stateKinds, SelectorPart.isState]

theorem any_allParts : (allParts t cs).any SelectorPart.isState = true ↔
    ∃ c ∈ cs, c.isNamed = true ∧ (parts t c).any SelectorPart.isState = true := by
  induction cs with
  | nil => simp [allParts]
  | cons c cs ih => by_cases hc : c.isNamed = true <;> simp [allParts, hc, ih, -List.any_eq_true]

/-- A combinator itself describes no state. -/
theorem any_joinedParts {k : Combinator} :
    (joinedParts t k cs).any SelectorPart.isState = true ↔
      ∃ c ∈ cs, c.isNamed = true ∧ (parts t c).any SelectorPart.isState = true := by
  induction cs with
  | nil => simp [joinedParts]
  | cons c cs ih =>
    by_cases hc : c.isNamed = true
    · rw [joinedParts, if_pos hc, List.any_append, List.any_cons, Bool.or_eq_true, Bool.or_eq_true,
        any_allParts]
      simp [hc, SelectorPart.isState, -List.any_eq_true]
    · simp [joinedParts, hc, ih, -List.any_eq_true]

/-- The base of a compound selector is what stands in front of the first token. -/
theorem any_baseParts : (baseParts t cs).any SelectorPart.isState = true ↔
    ∃ front c behind, cs = front ++ c :: behind ∧ (∀ b ∈ front, b.isNamed = true) ∧
      c.isNamed = true ∧ (parts t c).any SelectorPart.isState = true := by
  induction cs with
  | nil => simp [baseParts]
  | cons c cs ih =>
    by_cases hc : c.isNamed = true
    · rw [baseParts, if_pos hc, List.any_append, Bool.or_eq_true, ih]
      constructor
      · rintro (hstate | ⟨front, e, behind, rfl, hfront, he, hstate⟩)
        · exact ⟨[], c, cs, rfl, by simp, hc, hstate⟩
        · exact ⟨c :: front, e, behind, rfl, by simpa [hc] using hfront, he, hstate⟩
      · rintro ⟨front, e, behind, hcs, hfront, he, hstate⟩
        cases front with
        | nil =>
          obtain ⟨rfl, rfl⟩ := List.cons.inj hcs
          exact Or.inl hstate
        | cons b front =>
          obtain ⟨rfl, rfl⟩ := List.cons.inj hcs
          exact Or.inr ⟨front, e, behind, rfl, fun b hb => hfront b (List.mem_cons_of_mem _ hb),
            he, hstate⟩
    · rw [baseParts, if_neg hc]
      simp only [List.any_nil, Bool.false_eq_true, false_iff]
      rintro ⟨front, e, behind, hcs, hfront, he, -⟩
      cases front with
      | nil => exact hc ((List.cons.inj hcs).1 ▸ he)
      | cons b front => exact hc ((List.cons.inj hcs).1 ▸ hfront b List.mem_cons_self)

/-- **The components of a selector describe a state when one of its parts does.** -/
theorem any_isState_parts : (parts t n).any SelectorPart.isState = true ↔ HoldsState n := by
  induction n using Node.induction with
  | step l cs ih =>
    rw [parts]
    cases hcombinator : combinatorOf l.kind with
    | some k =>
      have hkind : l.kind ∈ combinatorKinds := by
        by_contra hkind
        simp [combinatorOf_eq_none_iff.2 hkind] at hcombinator
      rw [any_joinedParts, holdsState_of_combinator hkind]
      exact exists_congr fun c => and_congr_right fun hc => and_congr_right fun _ => ih c hc
    | none =>
      have hnot : l.kind ∉ combinatorKinds := combinatorOf_eq_none_iff.1 hcombinator
      cases hsimple : simplePart l.kind (String.ofList (t.at l.span)) with
      | some part =>
        have hkind : l.kind ∈ simpleKinds := by
          by_contra hkind
          simp [simplePart_eq_none_iff.2 hkind] at hsimple
        simp [isState_of_simplePart hsimple, not_holdsState_of_simple hkind]
      | none =>
        have hcompound : l.kind ∉ simpleKinds := simplePart_eq_none_iff.1 hsimple
        rw [List.any_append, Bool.or_eq_true, any_baseParts, any_isState_namedPart,
          holdsState_of_compound hnot hcompound]
        refine or_congr_left ⟨?_, ?_⟩
        · rintro ⟨front, c, behind, rfl, hfront, hc, hstate⟩
          exact ⟨front, c, behind, rfl, hfront, hc, (ih c (by simp)).1 hstate⟩
        · rintro ⟨front, c, behind, rfl, hfront, hc, hstate⟩
          exact ⟨front, c, behind, rfl, hfront, hc, (ih c (by simp)).2 hstate⟩

/-! ## Selectors -/

section

variable {parser : Parser} {s : String}

theorem parse_eq_ok {found : List SelectorPart} (h : parse parser s = .ok found) :
    ∃ selectors, selectorsNode? (parser .css (inRule s) none).root = some selectors ∧
      found = allParts (inRule s) selectors.children := by
  unfold parse at h
  simp only at h
  split at h
  · cases h
  split at h
  · cases h
  split at h
  · exact ⟨_, ‹_›, (Except.ok.inj h).symm⟩
  · cases h

/-- A selector that is parsed describes a state when some part of it does. -/
theorem isStateful_iff {found : List SelectorPart} (h : parse parser s = .ok found) :
    Duplicates.isStateful parser s = true ↔ DescribesState parser s := by
  obtain ⟨selectors, hselectors, rfl⟩ := parse_eq_ok h
  have hstateful : Duplicates.isStateful parser s = true ↔
      (allParts (inRule s) selectors.children).any SelectorPart.isState = true := by
    rw [Duplicates.isStateful, isStateQualified, h]
    cases hany : (allParts (inRule s) selectors.children).any SelectorPart.isState <;>
      simp [Except.map, Except.toOption, hany]
  rw [hstateful, any_allParts, DescribesState]
  simp only [hselectors, Option.some.injEq, exists_eq_left', Node.namedChildren, List.mem_filter,
    any_isState_parts, and_assoc]

theorem isRejected_eq_true :
    Duplicates.isRejected parser s = true ↔ ∃ e, parse parser s = .error e := by
  rw [Duplicates.isRejected]
  cases parse parser s <;> simp [Except.isOk, Except.toBool]

theorem isRejected_eq_false :
    Duplicates.isRejected parser s = false ↔ ∃ found, parse parser s = .ok found := by
  rw [Duplicates.isRejected]
  cases parse parser s <;> simp [Except.isOk, Except.toBool]

/-- The first selector of a list that is rejected, as the error that names it. -/
theorem find?_isRejected_iff {selectors : List String} {e : SelectorError} :
    (∃ s, selectors.find? (Duplicates.isRejected parser) = some s ∧ e = ⟨s⟩) ↔
      ∃ front s behind, selectors = front ++ s :: behind ∧
        (∀ r ∈ front, ∃ found, parse parser r = .ok found) ∧ parse parser s = .error e ∧
        e = ⟨s⟩ := by
  simp only [List.find?_eq_some_iff_append, Bool.not_eq_true', isRejected_eq_false]
  constructor
  · rintro ⟨s, ⟨hrejected, front, behind, rfl, hfront⟩, rfl⟩
    exact ⟨front, s, behind, rfl, hfront, Duplicates.parse_of_isRejected hrejected, rfl⟩
  · rintro ⟨front, s, behind, rfl, hfront, hs, rfl⟩
    exact ⟨s, ⟨isRejected_eq_true.2 ⟨_, hs⟩, front, behind, rfl, hfront⟩, rfl⟩

theorem find?_isRejected_eq_none_iff {selectors : List String} :
    selectors.find? (Duplicates.isRejected parser) = none ↔
      ∀ s ∈ selectors, ∃ found, parse parser s = .ok found := by
  simp [List.find?_eq_none, isRejected_eq_false]

end

/-- **How a list of selectors is judged.**  If some selector of the list is rejected, at
whatever position, the error is that of the first one, and names it.  Otherwise the verdict
is that there are selectors and that a part of each is a pseudo-class or a pseudo-element. -/
theorem judge_iff (parser : Parser) (selectors : List String) :
    ((∃ e, judge parser selectors = .error e) ↔
      ∃ s ∈ selectors, ∃ e, parse parser s = .error e) ∧
    (∀ e, judge parser selectors = .error e ↔
      ∃ front s behind, selectors = front ++ s :: behind ∧
        (∀ r ∈ front, ∃ found, parse parser r = .ok found) ∧ parse parser s = .error e ∧
        e = ⟨s⟩) ∧
    ∀ b, judge parser selectors = .ok b ↔
      (∀ s ∈ selectors, ∃ found, parse parser s = .ok found) ∧
        (b = true ↔ selectors ≠ [] ∧ ∀ s ∈ selectors, DescribesState parser s) := by
  have hfirst := @find?_isRejected_iff parser selectors
  have hnone := @find?_isRejected_eq_none_iff parser selectors
  rw [Duplicates.judge_eq]
  cases hfind : selectors.find? (Duplicates.isRejected parser) with
  | some s =>
    have hsome : ∃ s ∈ selectors, ∃ e, parse parser s = .error e :=
      ⟨s, List.mem_of_find?_eq_some hfind, isRejected_eq_true.1 (List.find?_some hfind)⟩
    refine ⟨⟨fun _ => hsome, fun _ => ⟨_, rfl⟩⟩, fun e => ?_, fun b => ?_⟩
    · rw [← hfirst, hfind]
      simp [eq_comm]
    · rw [← hnone, hfind]
      simp
  | none =>
    have hall := hnone.1 hfind
    have hstates : (∀ s ∈ selectors, Duplicates.isStateful parser s = true) ↔
        ∀ s ∈ selectors, DescribesState parser s := by
      refine forall₂_congr fun s hs => ?_
      obtain ⟨found, hfound⟩ := hall s hs
      exact isStateful_iff hfound
    refine ⟨⟨?_, ?_⟩, fun e => ?_, fun b => ?_⟩
    · rintro ⟨e, he⟩
      cases he
    · rintro ⟨s, hs, e, he⟩
      obtain ⟨found, hfound⟩ := hall s hs
      rw [hfound] at he
      cases he
    · rw [← hfirst, hfind]
      simp
    · rw [and_iff_right hall, ← hstates]
      by_cases hb : b = true
      · simp [hb]
      · simp [hb]

end Selector
end WebLint
