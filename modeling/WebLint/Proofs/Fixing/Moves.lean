import WebLint.Proofs.Fixing.Selection

/-!
# Where things move

When fixes are applied what stands behind them moves along.  An offset that no fix
cuts has a place in the new text: what a node covers starts behind the fixes that
end where it starts, and ends in front of those that start where it ends.

What is proved here:

* `moveStart_le`, `moveStart_lt_moveStop` — what moves keeps its order;
* `refillTo_append` — what the fixes make of a piece of the text, part by part;
* `dropBytes_apply`, `takeBytes_apply` — at the new place of an offset stands what stood
  behind it, and in front of it what stood in front of it, as the fixes there leave it;
* `row_apply` — in the same row, when the fixes keep all line feeds.
-/

namespace WebLint

/-- Whether an offset lies strictly inside the range of a fix. -/
def Fix.Cuts (f : Fix) (p : Nat) : Prop := f.start < p ∧ p < f.stop

instance (f : Fix) (p : Nat) : Decidable (f.Cuts p) :=
  inferInstanceAs (Decidable (f.start < p ∧ p < f.stop))

namespace Fixing

/-- An offset that is kept is not cut. -/
theorem uncut_of_kept {fs : List Fix} {p : Nat} (hkept : ∀ f ∈ fs, f.start ≤ p → f.stop ≤ p) :
    ∀ f ∈ fs, ¬ f.Cuts p := by
  intro f hf hcuts
  have hle := hkept f hf (Nat.le_of_lt hcuts.1)
  exact absurd hcuts.2 (Nat.not_lt.2 hle)

/-! ## Offsets -/

/-- The bytes between `cursor` and the offset `p` in the new text, when the fixes that
are passed, in order, are applied behind `cursor`. -/
def moved (passed : Fix → Bool) (cursor p : Nat) : List Fix → Nat
  | [] => p - cursor
  | f :: fs =>
    if passed f then f.start - cursor + f.content.byteLength + moved passed f.stop p fs
    else p - cursor

/-- Where an offset moves at which something starts: behind the fixes that end there. -/
def moveStart (fixes : List Fix) (p : Nat) : Nat :=
  moved (fun f => decide (f.stop ≤ p)) 0 p (sort fixes)

/-- Where an offset moves at which something ends: in front of the fixes that start
there. -/
def moveStop (fixes : List Fix) (p : Nat) : Nat :=
  moved (fun f => decide (f.start < p)) 0 p (sort fixes)

/-- Where a range moves with the text it covers.  Where it covers none it stays so. -/
def moveSpan (fixes : List Fix) (s : Span) : Span :=
  ⟨moveStart fixes s.start, max (moveStart fixes s.start) (moveStop fixes s.stop)⟩

section

variable {fs : List Fix} {cursor p q : Nat}

theorem moved_of_not_passed {passed : Fix → Bool} (h : ∀ f ∈ fs, passed f = false) :
    moved passed cursor p fs = p - cursor := by
  cases fs with
  | nil => rfl
  | cons f fs => rw [moved, h f List.mem_cons_self, if_neg Bool.false_ne_true]

/-- What starts later moves no further to the front. -/
theorem moved_le_moved (hle : p ≤ q) (hcursor : cursor ≤ p)
    (h : Region.inOrder cursor (fs.map Fix.span) = true) (hcut : ∀ f ∈ fs, ¬ f.Cuts p) :
    moved (fun f => decide (f.stop ≤ p)) cursor p fs ≤
      moved (fun f => decide (f.stop ≤ q)) cursor q fs := by
  induction fs generalizing cursor with
  | nil =>
    simp only [moved]
    omega
  | cons f fs ih =>
    obtain ⟨hstart, hordered, hrest⟩ := Region.inOrder_cons.1 h
    obtain ⟨hf, hcut⟩ := List.forall_mem_cons.1 hcut
    change cursor ≤ f.start at hstart
    by_cases hpassed : f.stop ≤ p
    · have hbehind := ih hpassed hrest hcut
      have hpassed' : f.stop ≤ q := by omega
      rw [moved, moved, if_pos (decide_eq_true hpassed), if_pos (decide_eq_true hpassed')]
      omega
    · have hfront : p ≤ f.start := Nat.le_of_not_lt fun hlt => hf ⟨hlt, by omega⟩
      rw [moved, moved, if_neg (by simpa using hpassed)]
      split
      · omega
      · omega

/-- What ends at an offset ends in front of what starts there. -/
theorem moved_stop_le (hcursor : cursor ≤ p) (h : Region.inOrder cursor (fs.map Fix.span) = true)
    (hcut : ∀ f ∈ fs, ¬ f.Cuts p) :
    moved (fun f => decide (f.start < p)) cursor p fs ≤
      moved (fun f => decide (f.stop ≤ p)) cursor p fs := by
  induction fs generalizing cursor with
  | nil => exact Nat.le_refl _
  | cons f fs ih =>
    obtain ⟨hstart, hordered, hrest⟩ := Region.inOrder_cons.1 h
    obtain ⟨hf, hcut⟩ := List.forall_mem_cons.1 hcut
    change cursor ≤ f.start at hstart
    rw [moved, moved]
    by_cases hpassed : f.start < p
    · have hstop : f.stop ≤ p := Nat.le_of_not_lt fun hlt => hf ⟨hpassed, hlt⟩
      have hbehind := ih hstop hrest hcut
      rw [if_pos (decide_eq_true hpassed), if_pos (decide_eq_true hstop)]
      omega
    · rw [if_neg (by simpa using hpassed)]
      split
      · omega
      · omega

/-- What starts at a byte that is kept starts in front of what ends behind it. -/
theorem moved_lt_moved_stop (hlt : p < q) (hcursor : cursor ≤ p)
    (h : Region.inOrder cursor (fs.map Fix.span) = true)
    (hkept : ∀ f ∈ fs, f.start ≤ p → f.stop ≤ p) :
    moved (fun f => decide (f.stop ≤ p)) cursor p fs <
      moved (fun f => decide (f.start < q)) cursor q fs := by
  induction fs generalizing cursor with
  | nil =>
    simp only [moved]
    omega
  | cons f fs ih =>
    obtain ⟨hstart, hordered, hrest⟩ := Region.inOrder_cons.1 h
    obtain ⟨hf, hkept⟩ := List.forall_mem_cons.1 hkept
    change cursor ≤ f.start at hstart
    by_cases hpassed : f.stop ≤ p
    · have hbehind := ih hpassed hrest hkept
      have hpassed' : f.start < q := by
        change f.start ≤ f.stop at hordered
        omega
      rw [moved, moved, if_pos (decide_eq_true hpassed), if_pos (decide_eq_true hpassed')]
      omega
    · have hfront : p < f.start := Nat.lt_of_not_le fun hle => hpassed (hf hle)
      rw [moved, moved, if_neg (by simpa using hpassed)]
      split
      · omega
      · omega

end

/-! ## The new text -/

section

variable {t : Text} {fs : List Fix} {cursor p : Nat}

/-- Whether the fixes of a list keep the line feeds in their ranges. -/
def KeepRows (t : Text) (fs : List Fix) : Prop :=
  ∀ f ∈ fs, f.content.count '\n' = (t.between f.start f.stop).count '\n'

/-- The fixes that come behind what starts at an offset. -/
def behind (fs : List Fix) (p : Nat) : List Fix := fs.dropWhile fun f => decide (f.stop ≤ p)

theorem behind_cons_of_le {f : Fix} (h : f.stop ≤ p) : behind (f :: fs) p = behind fs p :=
  List.dropWhile_cons_of_pos (decide_eq_true h)

theorem behind_cons_of_lt {f : Fix} (h : p < f.stop) : behind (f :: fs) p = f :: fs :=
  List.dropWhile_cons_of_neg (by simpa using h)

/-- What the fixes that are passed, in order, make of the text between `cursor` and the
offset `p`. -/
def refillTo (t : Text) (passed : Fix → Bool) (cursor p : Nat) : List Fix → Text
  | [] => t.between cursor p
  | f :: fs =>
    if passed f then t.between cursor f.start ++ f.content ++ refillTo t passed f.stop p fs
    else t.between cursor p

/-- Whether an offset comes behind the fixes that are passed, and in front of the others. -/
def Parts (passed : Fix → Bool) (p : Nat) (fs : List Fix) : Prop :=
  ∀ f ∈ fs, (passed f = true → f.stop ≤ p) ∧ (passed f = false → p ≤ f.start)

/-- What starts at an offset that is not cut comes behind the fixes that end there. -/
theorem parts_stop (hcut : ∀ f ∈ fs, ¬ f.Cuts p) : Parts (fun f => decide (f.stop ≤ p)) p fs := by
  intro f hf
  rw [decide_eq_true_eq, decide_eq_false_iff_not]
  refine ⟨fun hle => hle, fun hlt => Nat.le_of_not_lt fun hstart => ?_⟩
  exact hcut f hf ⟨hstart, Nat.lt_of_not_le hlt⟩

/-- What ends at an offset that is not cut comes in front of the fixes that start there. -/
theorem parts_start (hcut : ∀ f ∈ fs, ¬ f.Cuts p) : Parts (fun f => decide (f.start < p)) p fs := by
  intro f hf
  rw [decide_eq_true_eq, decide_eq_false_iff_not]
  refine ⟨fun hlt => Nat.le_of_not_lt fun hstop => ?_, fun hle => Nat.le_of_not_lt hle⟩
  exact hcut f hf ⟨hlt, hstop⟩

section

variable {passed : Fix → Bool}

theorem refillTo_of_not_passed (h : ∀ f ∈ fs, passed f = false) :
    refillTo t passed cursor p fs = t.between cursor p := by
  cases fs with
  | nil => rfl
  | cons f fs => rw [refillTo, h f List.mem_cons_self, if_neg Bool.false_ne_true]

/-- The new text up to an offset, and from there on: behind it stands what the other fixes
make of the old text there. -/
theorem refill_eq_append (hcursor : cursor ≤ p)
    (h : Region.inOrder cursor (fs.map Fix.span) = true) (hparts : Parts passed p fs) :
    refill t cursor (fs.map Fix.filling) =
      refillTo t passed cursor p fs ++ refill t p ((fs.dropWhile passed).map Fix.filling) := by
  induction fs generalizing cursor with
  | nil => exact (Text.between_append_dropBytes t hcursor).symm
  | cons f fs ih =>
    obtain ⟨-, -, hrest⟩ := Region.inOrder_cons.1 h
    obtain ⟨hf, hparts⟩ := List.forall_mem_cons.1 hparts
    by_cases hpassed : passed f = true
    · rw [List.dropWhile_cons_of_pos hpassed, refillTo, if_pos hpassed, List.append_assoc,
        ← ih (hf.1 hpassed) hrest hparts]
      rfl
    · have hfront : p ≤ f.start := hf.2 (Bool.eq_false_iff.2 hpassed)
      rw [List.dropWhile_cons_of_neg hpassed, refillTo, if_neg hpassed]
      refine refill_of_le t hcursor fun q hq => ?_
      obtain ⟨g, hg, rfl⟩ := List.mem_map.1 hq
      rcases List.mem_cons.1 hg with rfl | hg
      · exact hfront
      · have hbehind := Region.le_start_of_inOrder hrest (List.mem_map_of_mem hg)
        have hordered := (Region.inOrder_cons.1 h).2.1
        change f.start ≤ f.stop at hordered
        change f.stop ≤ g.start at hbehind
        change p ≤ g.start
        omega

/-- The bytes of the new text up to an offset. -/
theorem byteLength_refillTo (hcursor : cursor ≤ p) (hp : t.isBoundary p = true)
    (hboundary : t.isBoundary cursor = true)
    (h : Region.inOrder cursor (fs.map Fix.span) = true) (hvalid : ∀ f ∈ fs, isValid t f = true)
    (hparts : Parts passed p fs) :
    (refillTo t passed cursor p fs).byteLength = moved passed cursor p fs := by
  induction fs generalizing cursor with
  | nil => exact Text.byteLength_between hcursor hboundary hp
  | cons f fs ih =>
    obtain ⟨hstart, -, hrest⟩ := Region.inOrder_cons.1 h
    obtain ⟨hf, hparts⟩ := List.forall_mem_cons.1 hparts
    obtain ⟨hfvalid, hvalid⟩ := List.forall_mem_cons.1 hvalid
    obtain ⟨-, hfstart, hfstop⟩ := isValid_iff.1 hfvalid
    change cursor ≤ f.start at hstart
    rw [refillTo, moved]
    split
    · rename_i hpassed
      rw [Text.byteLength_append, Text.byteLength_append,
        Text.byteLength_between hstart hboundary hfstart,
        ih (hf.1 hpassed) hfstop hrest hvalid hparts]
    · exact Text.byteLength_between hcursor hboundary hp

/-- Fixes that keep the line feeds in their ranges keep those up to an offset. -/
theorem count_refillTo (hcursor : cursor ≤ p)
    (h : Region.inOrder cursor (fs.map Fix.span) = true) (hparts : Parts passed p fs)
    (hkeep : KeepRows t fs) :
    (refillTo t passed cursor p fs).count '\n' = (t.between cursor p).count '\n' := by
  induction fs generalizing cursor with
  | nil => rfl
  | cons f fs ih =>
    obtain ⟨hstart, hordered, hrest⟩ := Region.inOrder_cons.1 h
    obtain ⟨hf, hparts⟩ := List.forall_mem_cons.1 hparts
    obtain ⟨hfkeep, hkeep⟩ := List.forall_mem_cons.1 hkeep
    change cursor ≤ f.start at hstart
    rw [refillTo]
    split
    · rename_i hpassed
      rw [← Text.between_append_between t (Nat.le_trans hstart hordered) (hf.1 hpassed),
        ← Text.between_append_between t hstart hordered, List.count_append, List.count_append,
        List.count_append, List.count_append, hfkeep, ih (hf.1 hpassed) hrest hparts hkeep]
      rfl
    · rfl

/-- What stands in the new text up to an offset has stood there, or a fix has put it
there. -/
theorem mem_refillTo (hcursor : cursor ≤ p) (h : Region.inOrder cursor (fs.map Fix.span) = true)
    (hparts : Parts passed p fs) {c : Char} (hc : c ∈ refillTo t passed cursor p fs) :
    c ∈ t.between cursor p ∨ ∃ f ∈ fs, c ∈ f.content := by
  induction fs generalizing cursor with
  | nil => exact Or.inl hc
  | cons f fs ih =>
    obtain ⟨hstart, hordered, hrest⟩ := Region.inOrder_cons.1 h
    obtain ⟨hf, hparts⟩ := List.forall_mem_cons.1 hparts
    change cursor ≤ f.start at hstart
    change f.start ≤ f.stop at hordered
    rw [refillTo] at hc
    split at hc
    · rename_i hpassed
      have hstop := hf.1 hpassed
      rw [List.mem_append, List.mem_append] at hc
      rcases hc with (hc | hc) | hc
      · rw [← Text.between_append_between t hstart (Nat.le_trans hordered hstop)]
        exact Or.inl (List.mem_append_left _ hc)
      · exact Or.inr ⟨f, List.mem_cons_self, hc⟩
      · rcases ih hstop hrest hparts hc with hc | ⟨g, hg, hc⟩
        · rw [← Text.between_append_between t (Nat.le_trans hstart hordered) hstop]
          exact Or.inl (List.mem_append_right _ hc)
        · exact Or.inr ⟨g, List.mem_cons_of_mem f hg, hc⟩
    · exact Or.inl hc

/-- In front of all fixes stands what stood there. -/
theorem exists_refillTo_eq_cons (passed : Fix → Bool) (hlt : cursor < p)
    (hp : t.isBoundary p = true) (hboundary : t.isBoundary cursor = true)
    (hvalid : ∀ f ∈ fs, isValid t f = true) (hbehind : ∀ f ∈ fs, cursor < f.start) :
    ∃ c rest rest', t.dropBytes cursor = c :: rest ∧
      refillTo t passed cursor p fs = c :: rest' := by
  cases fs with
  | nil =>
    obtain ⟨c, rest, hpiece, hdrop⟩ := Text.exists_between_eq_cons hlt hboundary hp
    exact ⟨c, _, rest, hdrop, hpiece⟩
  | cons f fs =>
    rw [refillTo]
    split
    · obtain ⟨c, rest, hpiece, hdrop⟩ := Text.exists_between_eq_cons
        (hbehind f List.mem_cons_self) hboundary
        (isValid_iff.1 (hvalid f List.mem_cons_self)).2.1
      exact ⟨c, _, _, hdrop, by rw [hpiece]; rfl⟩
    · obtain ⟨c, rest, hpiece, hdrop⟩ := Text.exists_between_eq_cons hlt hboundary hp
      exact ⟨c, _, rest, hdrop, hpiece⟩

/-- The new text up to an offset, in two parts. -/
theorem refillTo_append {first : Fix → Bool} {a : Nat} (hcursor : cursor ≤ a) (hle : a ≤ p)
    (h : Region.inOrder cursor (fs.map Fix.span) = true) (hfirst : Parts first a fs)
    (hboth : ∀ f ∈ fs, first f = true → passed f = true) (hparts : Parts passed p fs) :
    refillTo t passed cursor p fs =
      refillTo t first cursor a fs ++ refillTo t passed a p (fs.dropWhile first) := by
  induction fs generalizing cursor with
  | nil => exact (Text.between_append_between t hcursor hle).symm
  | cons f fs ih =>
    obtain ⟨-, -, hrest⟩ := Region.inOrder_cons.1 h
    obtain ⟨hf, hfirst⟩ := List.forall_mem_cons.1 hfirst
    obtain ⟨hfboth, hboth⟩ := List.forall_mem_cons.1 hboth
    obtain ⟨-, hparts⟩ := List.forall_mem_cons.1 hparts
    by_cases hpassed : first f = true
    · rw [List.dropWhile_cons_of_pos hpassed, refillTo, if_pos (hfboth hpassed), refillTo,
        if_pos hpassed, ih (hf.1 hpassed) hrest hfirst hboth hparts]
      simp only [List.append_assoc]
    · have hfront : a ≤ f.start := hf.2 (Bool.eq_false_iff.2 hpassed)
      rw [List.dropWhile_cons_of_neg hpassed, refillTo, refillTo, if_neg hpassed, refillTo]
      split
      · rw [← Text.between_append_between t hcursor hfront]
        simp only [List.append_assoc]
      · exact (Text.between_append_between t hcursor hle).symm

end

/-- The fixes behind what starts at an offset that is not cut. -/
theorem mem_behind (h : Region.inOrder cursor (fs.map Fix.span) = true)
    (hcut : ∀ f ∈ fs, ¬ f.Cuts p) {f : Fix} (hf : f ∈ behind fs p) :
    f ∈ fs ∧ p ≤ f.start ∧ p < f.stop := by
  have hmem : f ∈ fs := (List.dropWhile_suffix _).subset hf
  have hstop : p < f.stop := by
    induction fs generalizing cursor with
    | nil => cases hf
    | cons g fs ih =>
      obtain ⟨-, -, hrest⟩ := Region.inOrder_cons.1 h
      by_cases hpassed : g.stop ≤ p
      · rw [behind_cons_of_le hpassed] at hf
        exact ih hrest (List.forall_mem_cons.1 hcut).2 hf ((List.dropWhile_suffix _).subset hf)
      · rcases List.mem_cons.1 hmem with rfl | hmem
        · omega
        · have hbehind := Region.le_start_of_inOrder hrest (List.mem_map_of_mem hmem)
          have hordered := Region.start_le_stop_of_inOrder hrest (List.mem_map_of_mem hmem)
          change g.stop ≤ f.start at hbehind
          change f.start ≤ f.stop at hordered
          omega
  exact ⟨hmem, (parts_stop hcut f hmem).2 (decide_eq_false (Nat.not_le.2 hstop)), hstop⟩

theorem inOrder_behind (h : Region.inOrder cursor (fs.map Fix.span) = true)
    (hcut : ∀ f ∈ fs, ¬ f.Cuts p) : Region.inOrder p ((behind fs p).map Fix.span) = true := by
  induction fs generalizing cursor with
  | nil => rfl
  | cons f fs ih =>
    obtain ⟨-, hordered, hrest⟩ := Region.inOrder_cons.1 h
    by_cases hpassed : f.stop ≤ p
    · rw [behind_cons_of_le hpassed]
      exact ih hrest (List.forall_mem_cons.1 hcut).2
    · have hbehind : behind (f :: fs) p = f :: fs := behind_cons_of_lt (Nat.lt_of_not_le hpassed)
      have hfront := (mem_behind h hcut (hbehind ▸ List.mem_cons_self)).2.1
      rw [hbehind]
      exact Region.inOrder_cons.2 ⟨hfront, hordered, hrest⟩

/-- The new text up to the place of an offset, and from there on: behind it stands what the
fixes behind the offset make of the old text there.  In front of it stand as many line feeds
as before when the fixes keep them. -/
theorem exists_refill_eq (hcursor : cursor ≤ p) (hp : t.isBoundary p = true)
    (hboundary : t.isBoundary cursor = true)
    (h : Region.inOrder cursor (fs.map Fix.span) = true) (hvalid : ∀ f ∈ fs, isValid t f = true)
    (hcut : ∀ f ∈ fs, ¬ f.Cuts p) :
    ∃ front, refill t cursor (fs.map Fix.filling) =
        front ++ refill t p ((behind fs p).map Fix.filling) ∧
      front.byteLength = moved (fun f => decide (f.stop ≤ p)) cursor p fs ∧
      (KeepRows t fs → front.count '\n' = (t.between cursor p).count '\n') :=
  ⟨_, refill_eq_append hcursor h (parts_stop hcut),
    byteLength_refillTo hcursor hp hboundary h hvalid (parts_stop hcut),
    count_refillTo hcursor h (parts_stop hcut)⟩

end

/-! ## Fixes that are apart -/

section

variable {t : Text} {fs : List Fix} {p q : Nat}

theorem inOrder_sort (hvalid : ∀ f ∈ fs, isValid t f = true) (hapart : fs.Pairwise Fix.Apart) :
    Region.inOrder 0 ((sort fs).map Fix.span) = true := by
  have hordered : ∀ f ∈ fs, f.start ≤ f.stop := fun f hf => (isValid_iff.1 (hvalid f hf)).1
  exact inOrder_of_pairwise (fun f _ => Nat.zero_le f.start)
    (fun f hf => hordered f ((perm_sort fs).subset hf)) (pairwise_sort_of_apart hordered hapart)

variable (hvalid : ∀ f ∈ fs, isValid t f = true) (hapart : fs.Pairwise Fix.Apart)
include hvalid hapart

/-- What starts later moves no further to the front. -/
theorem moveStart_le (hle : p ≤ q) (hcut : ∀ f ∈ fs, ¬ f.Cuts p) :
    moveStart fs p ≤ moveStart fs q :=
  moved_le_moved hle (Nat.zero_le p) (inOrder_sort hvalid hapart)
    fun f hf => hcut f ((perm_sort fs).subset hf)

/-- What ends at an offset ends in front of what starts there. -/
theorem moveStop_le (hcut : ∀ f ∈ fs, ¬ f.Cuts p) : moveStop fs p ≤ moveStart fs p :=
  moved_stop_le (Nat.zero_le p) (inOrder_sort hvalid hapart)
    fun f hf => hcut f ((perm_sort fs).subset hf)

/-- What starts at a byte that is kept starts in front of what ends behind it. -/
theorem moveStart_lt_moveStop (hlt : p < q) (hkept : ∀ f ∈ fs, f.start ≤ p → f.stop ≤ p) :
    moveStart fs p < moveStop fs q :=
  moved_lt_moved_stop hlt (Nat.zero_le p) (inOrder_sort hvalid hapart)
    fun f hf => hkept f ((perm_sort fs).subset hf)

/-- The new text in front of the place of an offset that is not cut, and behind it. -/
theorem exists_apply_eq (hp : t.isBoundary p = true) (hcut : ∀ f ∈ fs, ¬ f.Cuts p) :
    ∃ front, (apply fs t).text = front ++ refill t p ((behind (sort fs) p).map Fix.filling) ∧
      front.byteLength = moveStart fs p ∧ (KeepRows t fs → front.count '\n' = t.row p) := by
  have htake : t.between 0 p = t.takeBytes p := by rw [Text.between, Text.dropBytes_zero]
  obtain ⟨front, hrefill, hlength, hcount⟩ := exists_refill_eq (Nat.zero_le p) hp
    (Text.isBoundary_zero t) (inOrder_sort hvalid hapart)
    (fun f hf => hvalid f ((perm_sort fs).subset hf))
    (fun f hf => hcut f ((perm_sort fs).subset hf))
  rw [apply_of_apart hvalid hapart, Text.row, ← htake]
  exact ⟨front, hrefill, hlength, fun hkeep =>
    hcount fun f hf => hkeep f ((perm_sort fs).subset hf)⟩

/-- What stands behind an offset that is not cut moves along with it: from its new place on
stands what the fixes behind it make of the old text there. -/
theorem dropBytes_apply (hp : t.isBoundary p = true) (hcut : ∀ f ∈ fs, ¬ f.Cuts p) :
    (apply fs t).text.isBoundary (moveStart fs p) = true ∧
      (apply fs t).text.dropBytes (moveStart fs p) =
        refill t p ((behind (sort fs) p).map Fix.filling) := by
  obtain ⟨front, happly, hlength, -⟩ := exists_apply_eq hvalid hapart hp hcut
  rw [happly, ← hlength]
  exact ⟨Text.isBoundary_byteLength_append _ _, Text.dropBytes_append _ _⟩

/-- The new text up to the place of an offset, which falls between two characters. -/
theorem takeBytes_apply {passed : Fix → Bool} (hp : t.isBoundary p = true)
    (hparts : Parts passed p (sort fs)) :
    (apply fs t).text.isBoundary (moved passed 0 p (sort fs)) = true ∧
      (apply fs t).text.takeBytes (moved passed 0 p (sort fs)) =
        refillTo t passed 0 p (sort fs) := by
  have horder := inOrder_sort hvalid hapart
  rw [apply_of_apart hvalid hapart, ← byteLength_refillTo (Nat.zero_le p) hp
    (Text.isBoundary_zero t) horder (fun f hf => hvalid f ((perm_sort fs).subset hf)) hparts]
  change (refill t 0 _).isBoundary _ = true ∧ (refill t 0 _).takeBytes _ = _
  rw [refill_eq_append (Nat.zero_le p) horder hparts]
  exact ⟨Text.isBoundary_byteLength_append _ _, Text.takeBytes_append _ _⟩

/-- What stands between the new places of two offsets. -/
theorem between_apply {passed : Fix → Bool} (hle : p ≤ q) (hp : t.isBoundary p = true)
    (hq : t.isBoundary q = true) (hcut : ∀ f ∈ fs, ¬ f.Cuts p)
    (hboth : ∀ f ∈ fs, f.stop ≤ p → passed f = true) (hparts : Parts passed q (sort fs)) :
    moveStart fs p ≤ moved passed 0 q (sort fs) ∧
      (apply fs t).text.between (moveStart fs p) (moved passed 0 q (sort fs)) =
        refillTo t passed p q (behind (sort fs) p) := by
  have hsorted : ∀ f ∈ sort fs, ¬ f.Cuts p := fun f hf => hcut f ((perm_sort fs).subset hf)
  obtain ⟨-, hfront⟩ := takeBytes_apply hvalid hapart hp (parts_stop hsorted)
  obtain ⟨hboundary, hwhole⟩ := takeBytes_apply hvalid hapart hq hparts
  have hsplit := refillTo_append (t := t) (Nat.zero_le p) hle (inOrder_sort hvalid hapart)
    (parts_stop hsorted) (fun f hf hpassed =>
      hboth f ((perm_sort fs).subset hf) (of_decide_eq_true hpassed)) hparts
  have hlength : (refillTo t (fun f => decide (f.stop ≤ p)) 0 p (sort fs)).byteLength =
      moveStart fs p :=
    byteLength_refillTo (Nat.zero_le p) hp (Text.isBoundary_zero t) (inOrder_sort hvalid hapart)
      (fun f hf => hvalid f ((perm_sort fs).subset hf)) (parts_stop hsorted)
  constructor
  · have hbytes := Text.byteLength_takeBytes_of_isBoundary _ _ hboundary
    rw [hwhole, hsplit, Text.byteLength_append, hlength] at hbytes
    omega
  · rw [Text.between, hwhole, hsplit, ← hlength, Text.dropBytes_append]
    rfl

/-- Fixes that keep all line feeds keep the rows of the offsets they do not cut. -/
theorem row_apply (hp : t.isBoundary p = true) (hcut : ∀ f ∈ fs, ¬ f.Cuts p)
    (hkeep : KeepRows t fs) : (apply fs t).text.row (moveStart fs p) = t.row p := by
  obtain ⟨front, happly, hlength, hcount⟩ := exists_apply_eq hvalid hapart hp hcut
  rw [Text.row, happly, ← hlength, Text.takeBytes_append, hcount hkeep]

end

end Fixing
end WebLint
