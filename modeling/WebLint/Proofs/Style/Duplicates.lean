import WebLint.Proofs.Tree
import WebLint.Style.Duplicates

/-!
# What the search for repeated declarations finds

The search walks a sheet with the keys it has seen so far, and gives up at the
first malformed selector.  This file says what it finds without mentioning the
walk: the sheet is flattened into the list of its *placed* declarations, those
directly behind selectors, and a finding is a position of that list.

What is proved here:

* `key_inj` — keys tell declarations apart, unless a property holds a colon;
* `judge_eq` — a list of selectors is judged by its first malformed one, or else
  by all of them;
* `search_error`, `search_found` — a search gives up at the first malformed
  selector of a walk, and else finds what is repeated in it;
* `found_searchSheet` — what is repeated among the placed declarations;
* `detect_eq_findings` — the findings are the placed declarations that repeat
  an earlier one and are not excused.
-/

namespace WebLint
namespace Duplicates

/-! ## Placed declarations -/

/-- A declaration directly behind selectors. -/
structure Placed where
  /-- The selectors. -/
  selectors : List String
  /-- The declaration. -/
  declaration : Declaration

mutual

/-- The placed declarations of one part of a sheet.  The part itself stands
directly behind the selectors `front`, if there are any. -/
def placedIn (front : Option (List String)) : StyleNode → List Placed
  | .atRule _ children => placed none children
  | .rule selectors items => placed (some selectors) items
  | .declaration d => (front.map fun selectors => ⟨selectors, d⟩).toList

/-- The placed declarations of some parts of a sheet, in order. -/
def placed (front : Option (List String)) : List StyleNode → List Placed
  | [] => []
  | n :: ns => placedIn front n ++ placed front ns

end

mutual

/-- The selectors in one part of a sheet, those in front of a block before
those in it. -/
def selectorsIn : StyleNode → List String
  | .atRule _ children => selectorsOf children
  | .rule selectors items => selectors ++ selectorsOf items
  | .declaration _ => []

/-- The selectors in some parts of a sheet, in order. -/
def selectorsOf : List StyleNode → List String
  | [] => []
  | n :: ns => selectorsIn n ++ selectorsOf ns

end

/-- Whether a text is no selector on its own. -/
def isRejected (parser : Parser) (selector : String) : Bool :=
  !(Selector.parse parser selector).isOk

/-- Whether a selector describes a state. -/
def isStateful (parser : Parser) (selector : String) : Bool :=
  (Selector.isStateQualified parser selector).toOption == some true

/-- Whether each selector in front of a declaration describes a state. -/
def Placed.AllStateful (parser : Parser) (p : Placed) : Prop :=
  ∀ s ∈ p.selectors, isStateful parser s = true

instance (parser : Parser) (p : Placed) : Decidable (p.AllStateful parser) :=
  inferInstanceAs (Decidable (∀ s ∈ p.selectors, isStateful parser s = true))

/-- Whether a declaration stands behind selectors, and each of them describes a
state. -/
def Placed.IsExcused (parser : Parser) (p : Placed) : Prop :=
  p.selectors ≠ [] ∧ p.AllStateful parser

instance (parser : Parser) (p : Placed) : Decidable (p.IsExcused parser) :=
  inferInstanceAs (Decidable (_ ∧ _))

/-- Whether two declarations give the same value to the same property. -/
def SamePair (d e : Declaration) : Prop := d.property = e.property ∧ d.value = e.value

instance (d e : Declaration) : Decidable (SamePair d e) :=
  inferInstanceAs (Decidable (_ ∧ _))

/-- Whether the declaration at a position says what an earlier one says. -/
def RepeatsEarlier (ps : List Placed) (i : Fin ps.length) : Prop :=
  ∃ j : Fin ps.length, j < i ∧ SamePair ps[j].declaration ps[i].declaration

instance (ps : List Placed) (i : Fin ps.length) : Decidable (RepeatsEarlier ps i) :=
  inferInstanceAs (Decidable (∃ _, _))

/-! ## Keys -/

/-- The first colon of a text cuts it in one way only. -/
theorem append_colon_inj {a b u v : List Char} (ha : ':' ∉ a) (hb : ':' ∉ b)
    (h : a ++ ':' :: u = b ++ ':' :: v) : a = b ∧ u = v := by
  induction a generalizing b with
  | nil =>
    cases b with
    | nil => exact ⟨rfl, (List.cons.inj h).2⟩
    | cons d b =>
      have hd : ':' = d := (List.cons.inj h).1
      exact absurd (by rw [hd]; exact List.mem_cons_self) hb
  | cons c a ih =>
    cases b with
    | nil =>
      have hc : c = ':' := (List.cons.inj h).1
      exact absurd (by rw [hc]; exact List.mem_cons_self) ha
    | cons d b =>
      obtain ⟨hcd, hrest⟩ := List.cons.inj h
      obtain ⟨hab, huv⟩ :=
        ih (fun hm => ha (List.mem_cons_of_mem _ hm)) (fun hm => hb (List.mem_cons_of_mem _ hm))
          hrest
      exact ⟨by rw [hcd, hab], huv⟩

/-- Keys tell declarations apart, unless a property holds a colon: the first
colon of a key is then the one behind the property. -/
theorem key_inj {d e : Declaration} (hd : ':' ∉ d.property.toList) (he : ':' ∉ e.property.toList) :
    d.key = e.key ↔ SamePair d e := by
  constructor
  · intro h
    have hkey : d.property.toList ++ ':' :: (' ' :: d.value.toList) =
        e.property.toList ++ ':' :: (' ' :: e.value.toList) := by
      simpa [Declaration.key] using congrArg String.toList h
    obtain ⟨hp, hv⟩ := append_colon_inj hd he hkey
    exact ⟨String.toList_inj.1 hp, String.toList_inj.1 (List.cons.inj hv).2⟩
  · rintro ⟨hp, hv⟩
    rw [Declaration.key, Declaration.key, hp, hv]

/-! ## Judging selectors -/

/-- A selector that is rejected is named by its own error. -/
theorem parse_of_isRejected {parser : Parser} {s : String} (h : isRejected parser s = true) :
    Selector.parse parser s = .error ⟨s⟩ := by
  unfold isRejected at h
  unfold Selector.parse at h ⊢
  split
  · rfl
  · rename_i hopeless
    simp only [hopeless, Bool.false_eq_true, if_false] at h ⊢
    split
    · rfl
    · rename_i clean
      simp only [clean, Bool.false_eq_true, if_false] at h ⊢
      split
      · rename_i selectors found
        rw [found] at h
        exact absurd h (by simp [Except.isOk, Except.toBool])
      · rfl

/-- Whether a rejected selector describes a state is not known. -/
theorem isStateQualified_of_isRejected {parser : Parser} {s : String}
    (h : isRejected parser s = true) : Selector.isStateQualified parser s = .error ⟨s⟩ := by
  rw [Selector.isStateQualified, parse_of_isRejected h]
  rfl

/-- Whether any other selector describes a state is known. -/
theorem isStateQualified_of_not_isRejected {parser : Parser} {s : String}
    (h : isRejected parser s = false) :
    Selector.isStateQualified parser s = .ok (isStateful parser s) := by
  unfold isStateful Selector.isStateQualified
  unfold isRejected at h
  cases hp : Selector.parse parser s with
  | error e => rw [hp] at h; exact absurd h (by simp [Except.isOk, Except.toBool])
  | ok parts =>
    cases hb : parts.any SelectorPart.isState <;> simp [Except.map, Except.toOption, hb]

/-- Selectors are judged one after the other, and the first that is rejected
ends it. -/
theorem allQualified_eq (parser : Parser) (ss : List String) :
    Selector.allQualified parser ss =
      match ss.find? (isRejected parser) with
      | some s => .error ⟨s⟩
      | none => .ok (ss.all (isStateful parser)) := by
  induction ss with
  | nil => rfl
  | cons s ss ih =>
    rw [Selector.allQualified, ih]
    cases hs : isRejected parser s with
    | true =>
      rw [isStateQualified_of_isRejected hs, List.find?_cons_of_pos hs]
      rfl
    | false =>
      rw [isStateQualified_of_not_isRejected hs, List.find?_cons_of_neg (by simp [hs])]
      cases ss.find? (isRejected parser) with
      | some r => rfl
      | none => rfl

/-- A list of selectors is judged by its first malformed one, or else by all of
them. -/
theorem judge_eq (parser : Parser) (ss : List String) :
    Selector.judge parser ss =
      match ss.find? (isRejected parser) with
      | some s => .error ⟨s⟩
      | none => .ok (decide (ss ≠ [] ∧ ∀ s ∈ ss, isStateful parser s = true)) := by
  rw [Selector.judge, allQualified_eq]
  cases ss.find? (isRejected parser) with
  | some s => rfl
  | none =>
    show Except.ok _ = Except.ok _
    congr 1
    rw [Bool.eq_iff_iff]
    simp

/-! ## Positions

What is repeated in a list, for any kind of members that have keys and may be
excused. -/

section Positions

variable {α : Type} (key : α → String) (excused : α → Bool)

/-- The members whose key has been seen or is that of an earlier member, except
those that are excused. -/
def repeated (seen : SeenKeys) : List α → List α
  | [] => []
  | a :: as =>
    let after := repeated (seen.insert (key a)) as
    if seen.contains (key a) && !excused a then a :: after else after

/-- What is repeated depends on the members through their keys and excuses. -/
theorem repeated_map {β : Type} (f : β → α) (seen : SeenKeys) (bs : List β) :
    repeated key excused seen (bs.map f) =
      (repeated (fun b => key (f b)) (fun b => excused (f b)) seen bs).map f := by
  induction bs generalizing seen with
  | nil => rfl
  | cons b bs ih =>
    rw [List.map_cons, repeated, repeated, ih]
    split
    · rfl
    · rfl

/-- Whether a member is excused matters for the members of the list alone. -/
theorem repeated_congr {excused' : α → Bool} (seen : SeenKeys) {as : List α}
    (h : ∀ a ∈ as, excused a = excused' a) :
    repeated key excused seen as = repeated key excused' seen as := by
  induction as generalizing seen with
  | nil => rfl
  | cons a as ih =>
    rw [repeated, repeated, ih _ fun b hb => h b (List.mem_cons_of_mem a hb),
      h a List.mem_cons_self]

/-- Whether the member at a position is repeated: its key is at hand, or is
that of an earlier position, and it is not excused. -/
def RepeatedAt (keys : List String) (as : List α) (i : Fin as.length) : Prop :=
  (key as[i] ∈ keys ∨ ∃ j : Fin as.length, j < i ∧ key as[j] = key as[i]) ∧
    excused as[i] = false

instance (keys : List String) (as : List α) (i : Fin as.length) :
    Decidable (RepeatedAt key excused keys as i) :=
  inferInstanceAs (Decidable (_ ∧ _))

/-- Nothing stands before the first position. -/
theorem repeatedAt_zero (keys : List String) (a : α) (as : List α) :
    RepeatedAt key excused keys (a :: as) (0 : Fin (as.length + 1)) ↔
      key a ∈ keys ∧ excused a = false := by
  simp [RepeatedAt]

/-- Behind the first position, its key is one more key at hand. -/
theorem repeatedAt_succ (keys : List String) (a : α) (as : List α) (i : Fin as.length) :
    RepeatedAt key excused keys (a :: as) i.succ ↔
      RepeatedAt key excused (key a :: keys) as i := by
  have hearlier : (∃ j : Fin (as.length + 1), j < i.succ ∧ key (a :: as)[j] = key as[i]) ↔
      key as[i] = key a ∨ ∃ j : Fin as.length, j < i ∧ key as[j] = key as[i] := by
    rw [Fin.exists_fin_succ]
    simp [eq_comm, Fin.succ_lt_succ_iff]
  have hkey : (key as[i] ∈ keys ∨
        ∃ j : Fin (as.length + 1), j < i.succ ∧ key (a :: as)[j] = key as[i]) ↔
      (key as[i] ∈ key a :: keys ∨ ∃ j : Fin as.length, j < i ∧ key as[j] = key as[i]) := by
    rw [hearlier, List.mem_cons, or_left_comm, or_assoc]
  exact and_congr_left' hkey

/-- What is repeated, by position. -/
theorem repeated_eq_filter (keys : List String) (as : List α) :
    repeated key excused ⟨keys⟩ as =
      ((List.finRange as.length).filter fun i =>
        RepeatedAt key excused keys as i).map fun i => as[i] := by
  induction as generalizing keys with
  | nil => rfl
  | cons a as ih =>
    have hpositions : List.finRange (a :: as).length =
        (0 : Fin (as.length + 1)) :: (List.finRange as.length).map Fin.succ := List.finRange_succ
    have hrest : repeated key excused (SeenKeys.insert ⟨keys⟩ (key a)) as =
        (((List.finRange as.length).map Fin.succ).filter fun i =>
          RepeatedAt key excused keys (a :: as) i).map fun i => (a :: as)[i] := by
      rw [SeenKeys.insert, ih, List.filter_map, List.map_map]
      simp only [Function.comp_def, repeatedAt_succ]
      rfl
    rw [hpositions, repeated, hrest]
    by_cases ha : key a ∈ keys ∧ excused a = false
    · rw [List.filter_cons_of_pos (by simpa using (repeatedAt_zero key excused keys a as).2 ha),
        List.map_cons, if_pos (by simpa [SeenKeys.contains] using ha)]
      rfl
    · rw [List.filter_cons_of_neg
          (by simpa using fun h => ha ((repeatedAt_zero key excused keys a as).1 h)),
        if_neg (by simpa [SeenKeys.contains] using ha)]

end Positions

/-! ## Flattening a walk -/

/-- The malformed selector that is met, if any. -/
def Visit.malformed? : Visit → Option SelectorError
  | .rule (.error e) => some e
  | _ => none

/-- The declaration that is met, if any. -/
def Visit.declared? : Visit → Option (Owner × Declaration)
  | .declaration owner d => some (owner, d)
  | _ => none

/-- A search ends with the first malformed selector of the walk. -/
theorem search_error (seen : SeenKeys) (vs : List Visit) :
    (search seen vs).error = vs.findSome? Visit.malformed? := by
  induction vs generalizing seen with
  | nil => rfl
  | cons v vs ih =>
    cases v with
    | rule verdict =>
      cases verdict with
      | error e => rfl
      | ok b => exact ih seen
    | declaration owner d =>
      rw [search, List.findSome?_cons_of_isNone (by rfl)]
      split
      · exact ih _
      · exact ih _

/-- A search that meets no malformed selector finds what is repeated among the
declarations of the walk. -/
theorem search_found (seen : SeenKeys) (vs : List Visit)
    (h : vs.findSome? Visit.malformed? = none) :
    (search seen vs).found =
      repeated (·.2.key) (·.1.excused) seen (vs.filterMap Visit.declared?) := by
  induction vs generalizing seen with
  | nil => rfl
  | cons v vs ih =>
    cases v with
    | rule verdict =>
      cases verdict with
      | error e => exact absurd h (by simp [Visit.malformed?])
      | ok b => exact ih seen h
    | declaration owner d =>
      have hrest := ih (seen.insert d.key) h
      rw [search, List.filterMap_cons_some (by rfl), repeated]
      split
      · rw [← hrest]
      · exact hrest

/-- The owner that some selectors are. -/
def ownerOf (parser : Parser) (selectors : List String) : Owner :=
  .ofVerdict selectors (Selector.judge parser selectors)

mutual

/-- A walk through one part of a sheet meets its first rejected selector. -/
theorem malformed_visitsOf (parser : Parser) (owner : Option Owner) :
    ∀ n, (visitsOf (Selector.judge parser) owner n).findSome? Visit.malformed? =
      ((selectorsIn n).find? (isRejected parser)).map SelectorError.mk
  | .atRule _ children => malformed_visits parser none children
  | .rule selectors items => by
    have hitems :=
      malformed_visits parser (some (.ofVerdict selectors (Selector.judge parser selectors))) items
    rw [visitsOf, selectorsIn, List.find?_append, List.findSome?_cons, hitems, judge_eq]
    cases selectors.find? (isRejected parser) with
    | some s => rfl
    | none => rfl
  | .declaration d => by
    cases owner with
    | none => rfl
    | some o => rfl

/-- A walk through some parts of a sheet meets the first rejected selector of
them. -/
theorem malformed_visits (parser : Parser) (owner : Option Owner) :
    ∀ ns, (visits (Selector.judge parser) owner ns).findSome? Visit.malformed? =
      ((selectorsOf ns).find? (isRejected parser)).map SelectorError.mk
  | [] => rfl
  | n :: ns => by
    rw [visits, selectorsOf, List.findSome?_append, List.find?_append,
      malformed_visitsOf parser owner n, malformed_visits parser owner ns]
    cases (selectorsIn n).find? (isRejected parser) with
    | some s => rfl
    | none => rfl

end

mutual

/-- A walk through one part of a sheet meets its placed declarations. -/
theorem declared_visitsOf (parser : Parser) (front : Option (List String)) :
    ∀ n, (visitsOf (Selector.judge parser) (front.map (ownerOf parser)) n).filterMap
        Visit.declared? =
      (placedIn front n).map fun p => (ownerOf parser p.selectors, p.declaration)
  | .atRule _ children => declared_visits parser none children
  | .rule selectors items => declared_visits parser (some selectors) items
  | .declaration d => by
    cases front with
    | none => rfl
    | some selectors => rfl

/-- A walk through some parts of a sheet meets their placed declarations, in
order. -/
theorem declared_visits (parser : Parser) (front : Option (List String)) :
    ∀ ns, (visits (Selector.judge parser) (front.map (ownerOf parser)) ns).filterMap
        Visit.declared? =
      (placed front ns).map fun p => (ownerOf parser p.selectors, p.declaration)
  | [] => rfl
  | n :: ns => by
    rw [visits, placed, List.filterMap_append, List.map_append,
      declared_visitsOf parser front n, declared_visits parser front ns]

end

mutual

/-- The selectors in front of a placed declaration are selectors of the part of
the sheet it is in, unless they stand in front of that part. -/
theorem selectors_of_mem_placedIn {front : Option (List String)} {p : Placed} :
    ∀ n, p ∈ placedIn front n → front = some p.selectors ∨ ∀ s ∈ p.selectors, s ∈ selectorsIn n
  | .atRule _ children => fun h => by
    rcases selectors_of_mem_placed children h with hnone | hin
    · exact absurd hnone (by simp)
    · exact Or.inr hin
  | .rule selectors items => fun h => by
    rcases selectors_of_mem_placed items h with hfront | hin
    · refine Or.inr fun s hs => ?_
      rw [← Option.some.inj hfront] at hs
      exact List.mem_append_left _ hs
    · exact Or.inr fun s hs => List.mem_append_right _ (hin s hs)
  | .declaration d => fun h => by
    cases front with
    | none => exact absurd h (by simp [placedIn])
    | some selectors =>
      rw [placedIn, Option.map_some, Option.toList_some, List.mem_singleton] at h
      exact Or.inl (by rw [h])

/-- The same for some parts of a sheet. -/
theorem selectors_of_mem_placed {front : Option (List String)} {p : Placed} :
    ∀ ns, p ∈ placed front ns → front = some p.selectors ∨ ∀ s ∈ p.selectors, s ∈ selectorsOf ns
  | [] => fun h => absurd h (by simp [placed])
  | n :: ns => fun h => by
    rcases List.mem_append.1 h with hn | hns
    · rcases selectors_of_mem_placedIn n hn with hfront | hin
      · exact Or.inl hfront
      · exact Or.inr fun s hs => List.mem_append_left _ (hin s hs)
    · rcases selectors_of_mem_placed ns hns with hfront | hin
      · exact Or.inl hfront
      · exact Or.inr fun s hs => List.mem_append_right _ (hin s hs)

end

/-- Selectors that are not rejected excuse what stands behind them if they all
describe a state. -/
theorem excused_ownerOf {parser : Parser} {ss : List String}
    (h : ∀ s ∈ ss, isRejected parser s = false) :
    (ownerOf parser ss).excused = decide (ss ≠ [] ∧ ∀ s ∈ ss, isStateful parser s = true) := by
  have hnone : ss.find? (isRejected parser) = none :=
    List.find?_eq_none.2 fun s hs => by simp [h s hs]
  rw [ownerOf, judge_eq, hnone]
  rfl

/-! ## The findings -/

/-- A search over a sheet without rejected selectors meets no malformed one. -/
theorem malformed_of_not_isRejected {parser : Parser} {sheet : Sheet}
    (h : ∀ s ∈ selectorsOf sheet, isRejected parser s = false) :
    (visits (Selector.judge parser) none sheet).findSome? Visit.malformed? = none := by
  have hnone : (selectorsOf sheet).find? (isRejected parser) = none :=
    List.find?_eq_none.2 fun s hs => by simp [h s hs]
  rw [malformed_visits, hnone]
  rfl

/-- A search over a sheet without rejected selectors finds what is repeated
among its placed declarations. -/
theorem found_searchSheet {parser : Parser} {sheet : Sheet}
    (h : ∀ s ∈ selectorsOf sheet, isRejected parser s = false) :
    (searchSheet (Selector.judge parser) sheet).found =
      (repeated (·.declaration.key) (fun p => decide (p.IsExcused parser)) {}
        (placed none sheet)).map fun p => (ownerOf parser p.selectors, p.declaration) := by
  have hexcused : ∀ p ∈ placed none sheet,
      (ownerOf parser p.selectors).excused = decide (p.IsExcused parser) := by
    intro p hp
    rcases selectors_of_mem_placed sheet hp with hnone | hin
    · exact absurd hnone (by simp)
    · exact excused_ownerOf fun s hs => h s (hin s hs)
  rw [searchSheet, search_found _ _ (malformed_of_not_isRejected h),
    show (none : Option Owner) = (none : Option (List String)).map (ownerOf parser) from rfl,
    declared_visits, repeated_map, repeated_congr _ _ _ hexcused]

/-- The declarations of a sheet that are repeated, by position: where no
property holds a colon, keys stand for pairs. -/
theorem repeatedAt_iff_repeatsEarlier {parser : Parser} {ps : List Placed}
    (plain : ∀ p ∈ ps, ':' ∉ p.declaration.property.toList) (i : Fin ps.length) :
    RepeatedAt (·.declaration.key) (fun p => decide (p.IsExcused parser)) [] ps i ↔
      RepeatsEarlier ps i ∧ ¬ ps[i].IsExcused parser := by
  have hkey : ∀ j : Fin ps.length,
      ps[j].declaration.key = ps[i].declaration.key ↔
        SamePair ps[j].declaration ps[i].declaration :=
    fun j => key_inj (plain _ (List.getElem_mem _)) (plain _ (List.getElem_mem _))
  simp only [RepeatedAt, RepeatsEarlier, List.not_mem_nil, false_or, hkey, decide_eq_false_iff_not]

/-- **The search for repeated declarations.**  If some selector of a sheet is
rejected, the first one is named and nothing is found.  Otherwise the findings
are the placed declarations that say what an earlier placed one says, in order
and each once, except those behind selectors that all describe a state. -/
theorem detect_eq_findings (parser : Parser) (sheet : Sheet)
    (plain : ∀ p ∈ placed none sheet, ':' ∉ p.declaration.property.toList) :
    (∀ s, (selectorsOf sheet).find? (isRejected parser) = some s →
      (detect parser sheet true).value = .error ⟨s⟩) ∧
    ((∀ s ∈ selectorsOf sheet, isRejected parser s = false) →
      (detect parser sheet true).value =
        .ok (((List.finRange (placed none sheet).length).filter fun i =>
            RepeatsEarlier (placed none sheet) i ∧ ¬ (placed none sheet)[i].IsExcused parser).map
          fun i => .ofDeclaration (placed none sheet)[i].declaration)) := by
  have hvalue : (detect parser sheet true).value =
      (searchSheet (Selector.judge parser) sheet).findings := rfl
  constructor
  · intro s hs
    have herror : (searchSheet (Selector.judge parser) sheet).error = some ⟨s⟩ := by
      rw [searchSheet, search_error, malformed_visits, hs]
      rfl
    rw [hvalue, Search.findings, herror]
  · intro h
    have herror : (searchSheet (Selector.judge parser) sheet).error = none := by
      rw [searchSheet, search_error, malformed_of_not_isRejected h]
    rw [hvalue, Search.findings, herror, found_searchSheet h, repeated_eq_filter]
    simp only [List.map_map, Function.comp_def, repeatedAt_iff_repeatsEarlier plain]

/-! ### Two sheets -/

/-- The tree of a single selector in front of an empty block. -/
def treeOfSelector (selector : Node) : Node :=
  let stop := selector.stop
  let block := Node.construct "block" (stop + 1) (stop + 3)
    [.token "\x7b" (stop + 1), .token "\x7d" (stop + 2)]
  .construct "stylesheet" 0 (stop + 3)
    [.construct "rule_set" 0 (stop + 3) [.construct "selectors" 0 stop [selector], block]]

/-- The trees of the selectors `a` and `a:hover`. -/
def linkTrees : ParseTable :=
  [⟨.css, Selector.inRule "a", none, ⟨false, treeOfSelector (.construct "tag_name" 0 1)⟩⟩,
   ⟨.css, Selector.inRule "a:hover", none,
    ⟨false, treeOfSelector (.construct "pseudo_class_selector" 0 7
      [.construct "tag_name" 0 1, .token ":" 1,
       .construct "class_name" 2 7 [.construct "identifier" 2 7]])⟩⟩]

/-- The declaration `x: 1` at the byte `start` of the first line. -/
def xOne (start : Nat) : Declaration := ⟨"x", "1", ⟨start, start + 4⟩, ⟨1, start + 1⟩⟩

/-- A sheet with one declaration behind `a`, the same one again behind
`a:hover` in an at-rule, and once more behind both selectors nested in there. -/
def linkSheet : Sheet :=
  [.rule ["a"] [.declaration (xOne 0)],
   .atRule "@media" [.declaration (xOne 10),
    .rule ["a:hover"] [.declaration (xOne 20),
      .rule ["a:hover", "a"] [.declaration (xOne 30)]]]]

/-- Of the four declarations the last one is found: the second is not placed,
the third is excused. -/
theorem detect_linkSheet :
    (∀ p ∈ placed none linkSheet, ':' ∉ p.declaration.property.toList) ∧
      (∀ s ∈ selectorsOf linkSheet, isRejected linkTrees.parser s = false) ∧
      (detect linkTrees.parser linkSheet true).value = .ok [.ofDeclaration (xOne 30)] := by
  have plain : ∀ p ∈ placed none linkSheet, ':' ∉ p.declaration.property.toList := by decide
  have accepted : ∀ s ∈ selectorsOf linkSheet, isRejected linkTrees.parser s = false := by decide
  exact ⟨plain, accepted, (detect_eq_findings linkTrees.parser linkSheet plain).2 accepted⟩

/-- A sheet with a declaration twice, behind an empty list of selectors. -/
def bareSheet : Sheet := [.rule [] [.declaration (xOne 0), .declaration (xOne 5)]]

/-- No selectors excuse nothing, although each of them describes a state: the
repetition in such a rule is found. -/
theorem detect_bareSheet :
    ¬ ((∀ p ∈ placed none bareSheet, ':' ∉ p.declaration.property.toList) →
      (∀ s ∈ selectorsOf bareSheet, isRejected linkTrees.parser s = false) →
      (detect linkTrees.parser bareSheet true).value =
        .ok (((List.finRange (placed none bareSheet).length).filter fun i =>
            RepeatsEarlier (placed none bareSheet) i ∧
              ¬ (placed none bareSheet)[i].AllStateful linkTrees.parser).map
          fun i => .ofDeclaration (placed none bareSheet)[i].declaration)) := by
  intro h
  have hfound : (detect linkTrees.parser bareSheet true).value =
      .ok [.ofDeclaration (xOne 5)] := rfl
  rw [h (by decide) (by decide)] at hfound
  exact absurd (Except.ok.inj hfound) (by decide)

end Duplicates
end WebLint
