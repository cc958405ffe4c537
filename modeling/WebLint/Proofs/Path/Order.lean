import WebLint.Language

/-!
# The order of paths

Paths are ordered by their components, and so the order does not tell apart
paths that are the same.  Up to this it is a linear order, and a list of paths
in which each stands once is strictly increasing.

What is proved here:

* the instances of `Std.TransCmp` — the orders of components, of lists of
  components and of paths are transitive and total;
* `compare_eq_iff_same` — paths that are equal in the order are the same;
* `pairwise_sortUnique` — the paths of a list, each once, are strictly
  increasing;
* `exists_mem_sortUnique` — each path of the list is the same as one of them;
* `languages_of_same` — paths that are the same may hold the same languages.
-/

namespace WebLint
namespace Path

/-! ## Components -/

/-- The text of a name. -/
def Component.text : Component → String
  | .name text => text
  | _ => ""

/-- Components are ordered by their kinds, and then by their texts. -/
theorem Component.compare_eq : Component.compare =
    compareLex (compareOn Component.rank) (compareOn Component.text) := by
  funext a b
  cases a <;> cases b <;> rfl

instance : Std.TransCmp Component.compare :=
  Component.compare_eq ▸ inferInstance

instance : Std.LawfulEqCmp Component.compare where
  eq_of_compare {a b} h := by
    rw [Component.compare_eq, compareLex_eq_eq] at h
    obtain ⟨hrank, htext⟩ := h
    have hrank : a.rank = b.rank := Std.LawfulEqOrd.eq_of_compare hrank
    have htext : a.text = b.text := Std.LawfulEqOrd.eq_of_compare htext
    cases a <;> cases b <;> simp_all [Component.rank, Component.text]

/-- Lists of components are ordered by the first difference. -/
theorem compareComponents_eq : compareComponents = List.compareLex Component.compare := by
  funext as bs
  induction as generalizing bs with
  | nil =>
    cases bs with
    | nil => rfl
    | cons b bs => rfl
  | cons a as ih =>
    cases bs with
    | nil => rfl
    | cons b bs => rw [compareComponents, List.compareLex_cons_cons, ih]

instance : Std.TransCmp compareComponents := compareComponents_eq ▸ inferInstance

instance : Std.LawfulEqCmp compareComponents := compareComponents_eq ▸ inferInstance

/-! ## Paths -/

instance : Std.TransCmp Path.compare where
  eq_swap {p q} := @Std.OrientedCmp.eq_swap _ compareComponents _ p.components q.components
  isLE_trans {p q r} :=
    @Std.TransCmp.isLE_trans _ compareComponents _ p.components q.components r.components

/-- Paths that are equal in the order are the same. -/
theorem compare_eq_iff_same {p q : Path} : compare p q = .eq ↔ p.same q = true := by
  rw [same, beq_iff_eq]
  exact @Std.LawfulEqCmp.compare_eq_iff_eq _ compareComponents _ p.components q.components

theorem le_trans {p q r : Path} (h₁ : le p q = true) (h₂ : le q r = true) : le p r = true :=
  Std.TransCmp.isLE_trans h₁ h₂

theorem le_total (p q : Path) : (le p q || le q p) = true := by
  rw [le, le, @Std.OrientedCmp.eq_swap _ compare _ q p]
  cases compare p q with
  | lt => rfl
  | eq => rfl
  | gt => rfl

/-- Of two paths in order, the first is less or the same. -/
theorem lt_of_le {p q : Path} (h : le p q = true) (hne : p.same q = false) :
    compare p q = .lt := by
  cases hpq : compare p q with
  | lt => rfl
  | eq =>
    rw [compare_eq_iff_same.1 hpq] at hne
    cases hne
  | gt =>
    rw [le, hpq] at h
    cases h

/-! ## Lists of paths -/

/-- The first path stays in front when repeats are dropped. -/
theorem dropRepeats_cons (p : Path) (ps : List Path) :
    ∃ rest, dropRepeats (p :: ps) = p :: rest := by
  cases ps with
  | nil => exact ⟨[], rfl⟩
  | cons q ps =>
    rw [dropRepeats]
    split
    · exact ⟨[], rfl⟩
    · split
      · exact ⟨_, rfl⟩
      · exact ⟨_, rfl⟩

theorem same_comm {p q : Path} (h : p.same q = true) : q.same p = true := by
  rw [same, beq_iff_eq] at h ⊢
  exact h.symm

theorem same_trans {p q r : Path} (h₁ : p.same q = true) (h₂ : q.same r = true) :
    p.same r = true := by
  rw [same, beq_iff_eq] at h₁ h₂ ⊢
  exact h₁.trans h₂

/-- Of every path of a list one that is the same is left when repeats are
dropped. -/
theorem exists_mem_dropRepeats {p : Path} {ps : List Path} (h : p ∈ ps) :
    ∃ q ∈ dropRepeats ps, p.same q = true := by
  have hself : ∀ r : Path, r.same r = true := fun r => by rw [same, beq_self_eq_true]
  induction ps with
  | nil => cases h
  | cons q ps ih =>
    cases ps with
    | nil =>
      obtain rfl := List.mem_singleton.1 h
      exact ⟨p, List.mem_singleton_self p, hself p⟩
    | cons r ps =>
      obtain ⟨rest, hrest⟩ := dropRepeats_cons r ps
      rw [hrest] at ih
      rw [dropRepeats, hrest]
      simp only
      split
      · rename_i hqr
        rcases List.mem_cons.1 h with rfl | h
        · exact ⟨p, List.mem_cons_self, hself p⟩
        · obtain ⟨s, hs, hps⟩ := ih h
          rcases List.mem_cons.1 hs with rfl | hs
          · exact ⟨q, List.mem_cons_self, same_trans hps (same_comm hqr)⟩
          · exact ⟨s, List.mem_cons_of_mem q hs, hps⟩
      · rcases List.mem_cons.1 h with rfl | h
        · exact ⟨p, List.mem_cons_self, hself p⟩
        · obtain ⟨s, hs, hps⟩ := ih h
          exact ⟨s, List.mem_cons_of_mem q hs, hps⟩

/-- Dropping repeats adds nothing. -/
theorem mem_of_mem_dropRepeats {p : Path} {ps : List Path} (h : p ∈ dropRepeats ps) : p ∈ ps := by
  induction ps with
  | nil => exact h
  | cons q ps ih =>
    cases ps with
    | nil => exact h
    | cons r ps =>
      obtain ⟨rest, hrest⟩ := dropRepeats_cons r ps
      rw [dropRepeats, hrest] at h
      rw [hrest] at ih
      simp only at h
      split at h
      · rcases List.mem_cons.1 h with rfl | h
        · exact List.mem_cons_self
        · exact List.mem_cons_of_mem _ (ih (List.mem_cons_of_mem _ h))
      · rcases List.mem_cons.1 h with rfl | h
        · exact List.mem_cons_self
        · exact List.mem_cons_of_mem _ (ih h)

/-- Paths in order are strictly increasing once repeats are dropped. -/
theorem pairwise_dropRepeats {ps : List Path} (h : ps.Pairwise fun p q => le p q = true) :
    (dropRepeats ps).Pairwise fun p q => compare p q = .lt := by
  induction ps with
  | nil => exact .nil
  | cons p ps ih =>
    cases ps with
    | nil => exact List.pairwise_singleton _ _
    | cons q ps =>
      obtain ⟨hp, hps⟩ := List.pairwise_cons.1 h
      have htail := ih hps
      obtain ⟨rest, hrest⟩ := dropRepeats_cons q ps
      rw [dropRepeats, hrest]
      rw [hrest] at htail
      obtain ⟨hq, hrest'⟩ := List.pairwise_cons.1 htail
      have hpq : le p q = true := hp q List.mem_cons_self
      have hlt : ∀ r ∈ rest, compare p r = .lt := fun r hr =>
        Std.TransCmp.lt_of_isLE_of_lt hpq (hq r hr)
      simp only
      split
      · exact List.pairwise_cons.2 ⟨hlt, hrest'⟩
      · rename_i hne
        refine List.pairwise_cons.2 ⟨fun r hr => ?_, htail⟩
        rcases List.mem_cons.1 hr with rfl | hr
        · exact lt_of_le hpq (by simpa using hne)
        · exact hlt r hr

theorem mem_of_mem_sortUnique {p : Path} {ps : List Path} (h : p ∈ sortUnique ps) : p ∈ ps :=
  List.mem_mergeSort.1 (mem_of_mem_dropRepeats h)

theorem exists_mem_sortUnique {p : Path} {ps : List Path} (h : p ∈ ps) :
    ∃ q ∈ sortUnique ps, p.same q = true :=
  exists_mem_dropRepeats (List.mem_mergeSort.2 h)

/-- The paths of a list, each once, are strictly increasing. -/
theorem pairwise_sortUnique (ps : List Path) :
    (sortUnique ps).Pairwise fun p q => compare p q = .lt := by
  have hsorted : (ps.mergeSort le).Pairwise fun p q => le p q = true :=
    @List.pairwise_mergeSort _ le (fun _ _ _ h₁ h₂ => le_trans h₁ h₂) le_total ps
  exact pairwise_dropRepeats hsorted

/-- Of increasing paths none is dropped. -/
theorem dropRepeats_eq_self {ps : List Path} (h : ps.Pairwise fun p q => compare p q = .lt) :
    dropRepeats ps = ps := by
  induction ps with
  | nil => rfl
  | cons p ps ih =>
    cases ps with
    | nil => rfl
    | cons q ps =>
      obtain ⟨hp, hps⟩ := List.pairwise_cons.1 h
      have hne : ¬ p.same q = true := by
        intro hsame
        have hlt := hp q List.mem_cons_self
        rw [compare_eq_iff_same.2 hsame] at hlt
        cases hlt
      rw [dropRepeats, ih hps]
      simp only
      rw [if_neg hne]

/-- Increasing paths need no sorting. -/
theorem sortUnique_eq_self {ps : List Path} (h : ps.Pairwise fun p q => compare p q = .lt) :
    sortUnique ps = ps := by
  have hsorted : ps.Pairwise fun p q => le p q = true := h.imp fun {p q} hlt => by rw [le, hlt]; rfl
  rw [sortUnique, List.mergeSort_of_pairwise hsorted, dropRepeats_eq_self h]

/-! ## Languages -/

theorem components_of_same {p q : Path} (h : p.same q = true) : p.components = q.components :=
  beq_iff_eq.1 h

/-- Paths that are the same have the same extension. -/
theorem kind_of_same {p q : Path} (h : p.same q = true) : p.kind = q.kind := by
  have hname : p.fileName = q.fileName := by
    unfold fileName
    rw [components_of_same h]
  have hextension : p.extension = q.extension := by
    unfold extension
    rw [hname]
  unfold kind
  rw [hextension]

/-- Paths that are the same may hold the same languages. -/
theorem languages_of_same {p q : Path} (h : p.same q = true) : p.languages = q.languages := by
  unfold languages
  rw [kind_of_same h]

end Path
end WebLint
