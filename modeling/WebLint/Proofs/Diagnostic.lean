import WebLint.Diagnostic
import WebLint.Proofs.Path.Order

/-!
# The order of diagnostics

Diagnostics are ordered by their files first, so that the diagnostics of a list
of files, in order for each of them, are in order as a whole.

What is proved here:

* `pairwise_sort` — sorted diagnostics are in order;
* `sort_flatMap` — the diagnostics of increasing files need no sorting.
-/

namespace WebLint
namespace Diagnostic

instance : Std.TransCmp fun a b : Diagnostic => Path.compare a.file b.file where
  eq_swap {a b} := @Std.OrientedCmp.eq_swap _ Path.compare _ a.file b.file
  isLE_trans {a b c} := @Std.TransCmp.isLE_trans _ Path.compare _ a.file b.file c.file

instance : Std.TransCmp compare :=
  inferInstanceAs (Std.TransCmp (compareLex (fun a b : Diagnostic => Path.compare a.file b.file)
    (compareLex (compareOn fun d : Diagnostic => d.span.start)
      (compareOn fun d : Diagnostic => d.span.stop))))

theorem le_trans {a b c : Diagnostic} (h₁ : le a b = true) (h₂ : le b c = true) : le a c = true :=
  Std.TransCmp.isLE_trans h₁ h₂

theorem le_total (a b : Diagnostic) : (le a b || le b a) = true := by
  rw [le, le, @Std.OrientedCmp.eq_swap _ compare _ b a]
  cases compare a b with
  | lt => rfl
  | eq => rfl
  | gt => rfl

/-- A diagnostic of a file comes before those of later files. -/
theorem le_of_file_lt {a b : Diagnostic} (h : Path.compare a.file b.file = .lt) :
    le a b = true := by
  rw [le, compare, h]
  rfl

/-- Sorted diagnostics are in order. -/
theorem pairwise_sort (ds : List Diagnostic) : (sort ds).Pairwise fun a b => le a b = true :=
  @List.pairwise_mergeSort _ le (fun _ _ _ h₁ h₂ => le_trans h₁ h₂) le_total ds

@[simp] theorem sort_nil : sort [] = [] := List.mergeSort_nil

@[simp] theorem sort_singleton (d : Diagnostic) : sort [d] = [d] := List.mergeSort_singleton d

/-- The diagnostics of increasing files need no sorting, when those of each file
are in order. -/
theorem sort_flatMap {ps : List Path} {found : Path → List Diagnostic}
    (hps : ps.Pairwise fun p q => Path.compare p q = .lt)
    (hfile : ∀ p ∈ ps, ∀ d ∈ found p, d.file = p)
    (hfound : ∀ p ∈ ps, (found p).Pairwise fun a b => le a b = true) :
    sort (ps.flatMap found) = ps.flatMap found := by
  refine List.mergeSort_of_pairwise ?_
  induction ps with
  | nil => exact .nil
  | cons p ps ih =>
    obtain ⟨hp, hps⟩ := List.pairwise_cons.1 hps
    rw [List.flatMap_cons, List.pairwise_append]
    refine ⟨hfound p List.mem_cons_self,
      ih hps (fun q hq => hfile q (List.mem_cons_of_mem p hq))
        (fun q hq => hfound q (List.mem_cons_of_mem p hq)), ?_⟩
    intro a ha b hb
    obtain ⟨q, hq, hb⟩ := List.mem_flatMap.1 hb
    refine le_of_file_lt ?_
    rw [hfile p List.mem_cons_self a ha, hfile q (List.mem_cons_of_mem p hq) b hb]
    exact hp q hq

end Diagnostic
end WebLint
