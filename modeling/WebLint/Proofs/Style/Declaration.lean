import Mathlib.Data.List.TakeWhile
import WebLint.Proofs.Tree.Placement
import WebLint.Style.Sheet

/-!
# What is said of a declaration

A declaration ends in front of its semicolon, and its value reaches from the first word behind
the colon to the last one.  Comments and `!important` are no words, but a comment between two
words belongs to the value.

What is proved here:

* `isValue_valueText` — where a value starts and ends;
* `describes_declaration?` — what is said of a declaration is what its node has.
-/

namespace WebLint
namespace Sheet

open Node

/-- Whether a node is a word of a value: a construct other than a comment or `!important`. -/
def isWord (n : Node) : Bool := n.isNamed && n.kind != "important" && !isComment n

/-- Whether a text is the value of a declaration that consists of some nodes: what is written
behind the first colon, from the first word there to the last one. -/
inductive IsValue (t : Text) (children : List Node) : Text → Prop
  /-- There is no colon. -/
  | unassigned (h : ∀ n ∈ children, n.kind ≠ ":") : IsValue t children []
  /-- There is no word behind the first colon. -/
  | empty {front behind : List Node} {colon : Node} (hchildren : children = front ++ colon :: behind)
      (hfront : ∀ n ∈ front, n.kind ≠ ":") (hcolon : colon.kind = ":")
      (hwords : ∀ n ∈ behind, isWord n = false) : IsValue t children []
  /-- There are words behind the first colon. -/
  | words {front behind before after before' after' : List Node} {colon first last : Node}
      (hchildren : children = front ++ colon :: behind)
      (hfront : ∀ n ∈ front, n.kind ≠ ":") (hcolon : colon.kind = ":")
      (hfirst : behind = before ++ first :: after) (hword : isWord first = true)
      (hbefore : ∀ n ∈ before, isWord n = false)
      (hlast : behind = before' ++ last :: after') (hword' : isWord last = true)
      (hafter : ∀ n ∈ after', isWord n = false) :
      IsValue t children (t.at ⟨first.start, last.stop⟩).trim

/-- Whether a declaration is described as a node of a tree has it. -/
structure Describes (t : Text) (n : Node) (d : Declaration) : Prop where
  /-- The property is the text of the first part that is one. -/
  property : ∃ p, n.childOfKind "property_name" = some p ∧ d.property = p.string t
  /-- The value is the text from the first to the last word behind the colon. -/
  value : IsValue t n.children d.value.toList
  /-- It starts where the node starts. -/
  start_eq : d.span.start = n.start
  /-- It ends in the node. -/
  within : d.span.start ≤ d.span.stop ∧ d.span.stop ≤ n.stop
  /-- It covers all parts but semicolons, and nothing behind them. -/
  covers : (∀ c ∈ n.children, c.kind ≠ ";" → c.stop ≤ d.span.stop) ∧
    ∃ c ∈ n.children, c.kind ≠ ";" ∧ d.span.stop = c.stop
  /-- It does not reach into the semicolon the node ends with. -/
  terminated : ∀ c ∈ n.children.getLast?, c.kind = ";" → d.span.stop ≤ c.start
  /-- Its location is that of its start. -/
  location : d.location = Location.ofOffset t n.start

/-- The value of a declaration is found in front of, and behind, what is no word. -/
theorem isValue_valueText (t : Text) (children : List Node) :
    IsValue t children (valueText t children) := by
  have hsplit :=
    List.takeWhile_append_dropWhile (p := fun n : Node => n.kind != ":") (l := children)
  have hfront : ∀ n ∈ children.takeWhile (fun n => n.kind != ":"), n.kind ≠ ":" := by
    intro n hn
    simpa using List.mem_takeWhile_imp hn
  cases hdrop : children.dropWhile (fun n => n.kind != ":") with
  | nil =>
    rw [hdrop, List.append_nil] at hsplit
    rw [hsplit] at hfront
    have hnone : valueText t children = [] := by simp [valueText, valueWords, hdrop]
    rw [hnone]
    exact .unassigned hfront
  | cons colon behind =>
    rw [hdrop] at hsplit
    have hcolon : colon.kind = ":" := by
      have hhead := List.head?_dropWhile_not (fun n : Node => n.kind != ":") children
      rw [hdrop] at hhead
      simpa using hhead
    have hwords : valueWords children = behind.filter isWord := by
      rw [valueWords, hdrop]
      rfl
    rw [valueText, hwords, List.head?_filter, List.getLast?_filter]
    cases hfirst : behind.find? isWord with
    | none =>
      refine .empty hsplit.symm hfront hcolon fun n hn => ?_
      simpa using List.find?_eq_none.1 hfirst n hn
    | some first =>
      obtain ⟨hword, before, after, hbehind, hbefore⟩ := List.find?_eq_some_iff_append.1 hfirst
      cases hlast : behind.reverse.find? isWord with
      | none =>
        have hmem : first ∈ behind.reverse :=
          List.mem_reverse.2 (by rw [hbehind]; exact List.mem_append_right _ List.mem_cons_self)
        exact absurd hword (List.find?_eq_none.1 hlast first hmem)
      | some last =>
        obtain ⟨hword', after', before', hreverse, hafter⟩ :=
          List.find?_eq_some_iff_append.1 hlast
        have hbehind' : behind = before'.reverse ++ last :: after'.reverse := by
          simpa using congrArg List.reverse hreverse
        refine .words hsplit.symm hfront hcolon hbehind hword ?_ hbehind' hword' ?_
        · simpa using hbefore
        · simpa using hafter

/-- The largest of some numbers is one of them. -/
theorem foldl_max (stops : List Nat) (a : Nat) :
    a ≤ stops.foldl max a ∧ (∀ b ∈ stops, b ≤ stops.foldl max a) ∧
      (stops.foldl max a = a ∨ stops.foldl max a ∈ stops) := by
  induction stops generalizing a with
  | nil => simp
  | cons b stops ih =>
    obtain ⟨hle, hall, hmem⟩ := ih (max a b)
    rw [List.foldl_cons]
    refine ⟨by omega, ?_, ?_⟩
    · intro c hc
      rcases List.mem_cons.1 hc with rfl | hc
      · omega
      · exact hall c hc
    · rcases hmem with hmem | hmem
      · rcases Nat.le_total a b with hab | hab
        · rw [hmem, Nat.max_eq_right hab]
          exact Or.inr List.mem_cons_self
        · rw [hmem, Nat.max_eq_left hab]
          exact Or.inl rfl
      · exact Or.inr (List.mem_cons_of_mem _ hmem)

/-- A declaration reaches to the end of the last part that is no semicolon. -/
theorem declarationStop_eq {property : Node} {children : List Node} (hmem : property ∈ children)
    (hkind : property.kind ≠ ";") :
    (∀ c ∈ children, c.kind ≠ ";" → c.stop ≤ declarationStop property children) ∧
      ∃ c ∈ children, c.kind ≠ ";" ∧ declarationStop property children = c.stop := by
  obtain ⟨-, hall, hlast⟩ :=
    foldl_max ((children.filter (·.kind != ";")).map (·.stop)) property.stop
  refine ⟨fun c hc hsemicolon => hall _ (List.mem_map_of_mem ?_), ?_⟩
  · simp [hc, hsemicolon]
  · rcases hlast with hlast | hlast
    · exact ⟨property, hmem, hkind, hlast⟩
    · obtain ⟨c, hc, hstop⟩ := List.mem_map.1 hlast
      obtain ⟨hc, hsemicolon⟩ := List.mem_filter.1 hc
      exact ⟨c, hc, by simpa using hsemicolon, hstop.symm⟩

theorem start_of_declaration? {t : Text} {n : Node} {d : Declaration}
    (h : declaration? t n = some d) : d.span.start = n.start := by
  obtain ⟨property, -, rfl⟩ := Option.map_eq_some_iff.1 h
  rfl

/-- What is said of a declaration is what its node has. -/
theorem describes_declaration? {t : Text} {n : Node} {d : Declaration} (hplaced : n.IsPlaced t)
    (h : declaration? t n = some d) : Describes t n d := by
  obtain ⟨property, hproperty, rfl⟩ := Option.map_eq_some_iff.1 h
  have hnamed := List.mem_of_find?_eq_some hproperty
  have hmem : property ∈ n.children := (List.mem_filter.1 hnamed).1
  have hkind : property.kind = "property_name" := by
    simpa using List.find?_some hproperty
  obtain ⟨hcovers, last, hlast, hsemicolon, hstop⟩ :=
    declarationStop_eq hmem (by rw [hkind]; decide)
  have hself := self_mem_preorder n
  have hnested := hplaced.nested n hself
  refine
    { property := ⟨property, hproperty, rfl⟩
      value := by simpa using isValue_valueText t n.children
      start_eq := rfl
      within := ⟨?_, ?_⟩
      covers := ⟨hcovers, last, hlast, hsemicolon, hstop⟩
      terminated := ?_
      location := rfl }
  · have hle := hcovers property hmem (by rw [hkind]; decide)
    have hordered := hplaced.ordered property (mem_preorder_of_child hmem (self_mem_preorder _))
    have hin := (hnested property hmem).1
    show n.start ≤ declarationStop property n.children
    omega
  · show declarationStop property n.children ≤ n.stop
    rw [hstop]
    exact (hnested last hlast).2
  · intro c hc hcsemicolon
    show declarationStop property n.children ≤ c.start
    rw [hstop]
    obtain ⟨front, hfront⟩ := List.getLast?_eq_some_iff.1 hc
    have hsiblings := hplaced.siblings n hself
    rw [hfront] at hlast hsiblings
    rcases List.mem_append.1 hlast with hlast | hlast
    · exact (List.pairwise_append.1 hsiblings).2.2 last hlast c List.mem_cons_self
    · rw [List.mem_singleton.1 hlast] at hsemicolon
      exact absurd hcsemicolon hsemicolon

end Sheet
end WebLint
