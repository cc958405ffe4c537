/-!
# Sorting a part of a list

Elements that are equal in an order stay in the order they stand in.  So leaving out
some elements and sorting the others can be done one before the other.

What is proved here: `mergeSort_filter`.
-/

namespace WebLint
namespace Sorting

variable {α : Type} {le : α → α → Bool}

/-- A list is cut in one way only into elements that come before another one and, behind
them, elements that do not. -/
theorem append_inj_of_le {x : α} {a b u v : List α} (ha : ∀ y ∈ a, (!le x y) = true)
    (hb : ∀ y ∈ b, le x y = true) (hu : ∀ y ∈ u, (!le x y) = true) (hv : ∀ y ∈ v, le x y = true)
    (h : a ++ b = u ++ v) : a = u ∧ b = v := by
  have htake : ∀ {s t : List α}, (∀ y ∈ s, (!le x y) = true) → (∀ y ∈ t, le x y = true) →
      (s ++ t).takeWhile (fun y => !le x y) = s := by
    intro s t hs ht
    rw [List.takeWhile_append_of_pos hs]
    cases t with
    | nil => simp
    | cons y t => rw [List.takeWhile_cons_of_neg (by simp [ht y List.mem_cons_self]),
        List.append_nil]
  have hau : a = u := by rw [← htake ha hb, h, htake hu hv]
  rw [hau] at h
  exact ⟨hau, List.append_cancel_left h⟩

section

variable (htrans : ∀ a b c, le a b = true → le b c = true → le a c = true)
  (htotal : ∀ a b, (le a b || le b a) = true)
include htrans htotal

/-- Leaving out some elements and sorting the others can be done in either order. -/
theorem mergeSort_filter (p : α → Bool) (l : List α) :
    (l.filter p).mergeSort le = (l.mergeSort le).filter p := by
  -- what comes behind an element in a sorted list is no smaller
  have hbehind : ∀ {x : α} {l a b : List α}, l.mergeSort le = a ++ x :: b →
      ∀ y ∈ b, le x y = true := by
    intro x l a b h
    have hsorted := List.pairwise_mergeSort htrans htotal l
    rw [h] at hsorted
    exact (List.pairwise_cons.1 (List.pairwise_append.1 hsorted).2.1).1
  induction l with
  | nil => simp
  | cons x l ih =>
    obtain ⟨a, b, hcons, hrest, ha⟩ := List.mergeSort_cons htrans htotal x l
    cases hx : p x with
    | false =>
      rw [List.filter_cons_of_neg (by simp [hx]), ih, hcons, hrest, List.filter_append,
        List.filter_append, List.filter_cons_of_neg (by simp [hx])]
    | true =>
      obtain ⟨u, v, hcons', hrest', hu⟩ := List.mergeSort_cons htrans htotal x (l.filter p)
      have hparts : u ++ v = a.filter p ++ b.filter p := by
        rw [← hrest', ih, hrest, List.filter_append]
      obtain ⟨hua, hvb⟩ := append_inj_of_le hu (hbehind hcons')
        (fun y hy => ha y (List.mem_filter.1 hy).1)
        (fun y hy => hbehind hcons y (List.mem_filter.1 hy).1) hparts
      rw [List.filter_cons_of_pos hx, hcons', hcons, List.filter_append,
        List.filter_cons_of_pos hx, hua, hvb]

end

end Sorting
end WebLint
