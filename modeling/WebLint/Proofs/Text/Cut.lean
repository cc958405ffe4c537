import WebLint.Text

/-!
# Cutting a text at several offsets

The pieces of a text between byte offsets.  A cut that does not fall between
two characters is made in front of the character it falls into, and so the
pieces between any offsets in order are the text again.

What is proved here:

* `between_append_dropBytes`, `between_append_between` — pieces next to each
  other make one piece;
* `slice_eq_between` — from a boundary on, a slice is a piece;
* `isBoundary_iff` — the boundaries are the lengths of the beginnings of a text;
* `byteLength_between` — the length of a piece between boundaries.
-/

namespace WebLint
namespace Text

/-- The piece of a text between two offsets. -/
def between (t : Text) (start stop : Nat) : Text := (t.takeBytes stop).dropBytes start

/-- Every character takes a byte. -/
@[simp] theorem dropBytes_zero (t : Text) : t.dropBytes 0 = t := by
  cases t with
  | nil => rfl
  | cons c t =>
    have hc : ¬ c.utf8Size ≤ 0 := by have := Char.utf8Size_pos c; omega
    rw [dropBytes, if_neg hc]

/-- Nothing stands between offsets that are not in order. -/
theorem between_eq_nil (t : Text) {start stop : Nat} (h : stop ≤ start) :
    t.between start stop = [] := by
  unfold between
  induction t generalizing start stop with
  | nil => rfl
  | cons c t ih =>
    rw [takeBytes]
    split
    · rename_i hc
      rw [dropBytes, if_pos (by omega)]
      exact ih (by omega)
    · rfl

/-- A piece and all that follows it. -/
theorem between_append_dropBytes (t : Text) {start stop : Nat} (h : start ≤ stop) :
    t.between start stop ++ t.dropBytes stop = t.dropBytes start := by
  unfold between
  induction t generalizing start stop with
  | nil => rfl
  | cons c t ih =>
    by_cases hstop : c.utf8Size ≤ stop
    · rw [takeBytes, if_pos hstop, dropBytes, dropBytes, dropBytes, if_pos hstop]
      by_cases hstart : c.utf8Size ≤ start
      · rw [if_pos hstart, if_pos hstart]
        exact ih (by omega)
      · rw [if_neg hstart, if_neg hstart, List.cons_append, takeBytes_append_dropBytes]
    · have hstart : ¬ c.utf8Size ≤ start := by omega
      rw [takeBytes, if_neg hstop, dropBytes, dropBytes, dropBytes, if_neg hstop, if_neg hstart]
      rfl

/-- Two pieces next to each other. -/
theorem between_append_between (t : Text) {start middle stop : Nat} (h₁ : start ≤ middle)
    (h₂ : middle ≤ stop) :
    t.between start middle ++ t.between middle stop = t.between start stop := by
  have h : (t.between start middle ++ t.between middle stop) ++ t.dropBytes stop =
      t.between start stop ++ t.dropBytes stop := by
    rw [List.append_assoc, between_append_dropBytes t h₂, between_append_dropBytes t h₁,
      between_append_dropBytes t (Nat.le_trans h₁ h₂)]
  exact List.append_cancel_right h

/-- A beginning of a text, and the piece behind it. -/
theorem takeBytes_append_between (t : Text) {start stop : Nat} (h : start ≤ stop) :
    t.takeBytes start ++ t.between start stop = t.takeBytes stop := by
  simpa [between] using between_append_between t (Nat.zero_le start) h

/-- Cutting again behind a boundary. -/
theorem dropBytes_dropBytes (t : Text) {start stop : Nat} (hb : t.isBoundary start = true)
    (h : start ≤ stop) : (t.dropBytes start).dropBytes (stop - start) = t.dropBytes stop := by
  induction t generalizing start stop with
  | nil => rfl
  | cons c t ih =>
    cases start with
    | zero => rw [dropBytes_zero, Nat.sub_zero]
    | succ n =>
      simp only [isBoundary, Bool.and_eq_true, decide_eq_true_eq] at hb
      obtain ⟨hc, hb⟩ := hb
      have hsub : stop - (n + 1) = (stop - c.utf8Size) - (n + 1 - c.utf8Size) := by omega
      rw [dropBytes, if_pos hc, dropBytes, if_pos (Nat.le_trans hc h), hsub]
      exact ih hb (by omega)

/-- From a boundary on, a slice is a piece. -/
theorem slice_eq_between (t : Text) {start stop : Nat} (hb : t.isBoundary start = true)
    (h : start ≤ stop) : t.slice start stop = t.between start stop := by
  have hrest : t.slice start stop ++ t.dropBytes stop =
      t.between start stop ++ t.dropBytes stop := by
    rw [between_append_dropBytes t h, ← dropBytes_dropBytes t hb h, slice,
      takeBytes_append_dropBytes]
  exact List.append_cancel_right hrest

/-! ## Boundaries -/

theorem byteLength_eq_zero {t : Text} : t.byteLength = 0 ↔ t = [] := by
  cases t with
  | nil => simp
  | cons c t =>
    have := Char.utf8Size_pos c
    simp only [byteLength_cons, reduceCtorEq, iff_false]
    omega

/-- Cutting behind a beginning gives this beginning. -/
@[simp] theorem takeBytes_append (u v : Text) : (u ++ v).takeBytes u.byteLength = u := by
  induction u with
  | nil => cases v with
    | nil => rfl
    | cons c v =>
      have hc : ¬ c.utf8Size ≤ 0 := by have := Char.utf8Size_pos c; omega
      rw [List.nil_append, byteLength_nil, takeBytes, if_neg hc]
  | cons c u ih =>
    rw [List.cons_append, byteLength_cons, takeBytes, if_pos (by omega), Nat.add_sub_cancel_left,
      ih]

/-- Cutting behind a beginning leaves what follows it. -/
@[simp] theorem dropBytes_append (u v : Text) : (u ++ v).dropBytes u.byteLength = v := by
  have h := takeBytes_append_dropBytes (u ++ v) u.byteLength
  rw [takeBytes_append] at h
  exact List.append_cancel_left h

/-- The boundaries of a text are the lengths of its beginnings. -/
theorem isBoundary_iff {t : Text} {n : Nat} :
    t.isBoundary n = true ↔ ∃ u v, t = u ++ v ∧ u.byteLength = n := by
  constructor
  · intro h
    exact ⟨t.takeBytes n, t.dropBytes n, (takeBytes_append_dropBytes t n).symm,
      byteLength_takeBytes_of_isBoundary t n h⟩
  · rintro ⟨u, v, rfl, rfl⟩
    induction u with
    | nil => cases v <;> rfl
    | cons c u ih =>
      have := Char.utf8Size_pos c
      obtain ⟨k, hk⟩ : ∃ k, c.utf8Size + byteLength u = k + 1 :=
        ⟨c.utf8Size + byteLength u - 1, by omega⟩
      have hrest : k + 1 - c.utf8Size = byteLength u := by omega
      rw [List.cons_append, byteLength_cons, hk, isBoundary, hrest, ih, Bool.and_true,
        decide_eq_true_eq]
      omega

theorem isBoundary_byteLength_append (u v : Text) : (u ++ v).isBoundary u.byteLength = true :=
  isBoundary_iff.2 ⟨u, v, rfl, rfl⟩

theorem isBoundary_zero (t : Text) : t.isBoundary 0 = true := isBoundary_byteLength_append [] t

/-- Of two beginnings of a text the longer one starts with the other. -/
theorem exists_append_of_byteLength_le {u v a b : Text} (h : u ++ v = a ++ b)
    (hle : u.byteLength ≤ a.byteLength) : ∃ w, a = u ++ w ∧ v = w ++ b := by
  rcases List.append_eq_append_iff.1 h with ⟨w, ha, hv⟩ | ⟨w, hu, hb⟩
  · exact ⟨w, ha, hv⟩
  · rw [hu, byteLength_append] at hle
    obtain rfl : w = [] := byteLength_eq_zero.1 (by omega)
    rw [List.append_nil] at hu
    exact ⟨[], by rw [hu, List.append_nil], by simpa using hb.symm⟩

/-- A text reaches as far as its boundaries. -/
theorem le_byteLength_of_isBoundary {t : Text} {n : Nat} (h : t.isBoundary n = true) :
    n ≤ t.byteLength := by
  obtain ⟨u, v, rfl, rfl⟩ := isBoundary_iff.1 h
  rw [byteLength_append]
  omega

/-- Cutting behind a piece that stands at a boundary. -/
theorem cut_append {t u v : Text} {start : Nat} (hstart : t.isBoundary start = true)
    (h : t.dropBytes start = u ++ v) :
    t.isBoundary (start + u.byteLength) = true ∧
      t.between start (start + u.byteLength) = u ∧ t.dropBytes (start + u.byteLength) = v := by
  have hlength := byteLength_takeBytes_of_isBoundary t start hstart
  have hcut : t = (t.takeBytes start ++ u) ++ v := by
    rw [List.append_assoc, ← h, takeBytes_append_dropBytes]
  have hfront : (t.takeBytes start ++ u).byteLength = start + u.byteLength := by
    rw [byteLength_append, hlength]
  have hrest : t.dropBytes (start + u.byteLength) = v := by
    have hbehind := dropBytes_append (t.takeBytes start ++ u) v
    rwa [← hcut, hfront] at hbehind
  refine ⟨isBoundary_iff.2 ⟨_, v, hcut, hfront⟩, ?_, hrest⟩
  have hpiece := between_append_dropBytes t (Nat.le_add_right start u.byteLength)
  rw [hrest, h] at hpiece
  exact List.append_cancel_right hpiece

/-- The length of a piece between boundaries. -/
theorem byteLength_between {t : Text} {start stop : Nat} (h : start ≤ stop)
    (hstart : t.isBoundary start = true) (hstop : t.isBoundary stop = true) :
    (t.between start stop).byteLength = stop - start := by
  have hwhole := between_append_between t (Nat.zero_le start) h
  have hlength := congrArg byteLength hwhole
  simp only [byteLength_append, between, dropBytes_zero,
    byteLength_takeBytes_of_isBoundary t _ hstart,
    byteLength_takeBytes_of_isBoundary t _ hstop] at hlength
  simp only [between]
  omega

/-- A piece that is not empty starts as what stands from there on. -/
theorem exists_between_eq_cons {t : Text} {start stop : Nat} (h : start < stop)
    (hstart : t.isBoundary start = true) (hstop : t.isBoundary stop = true) :
    ∃ c rest, t.between start stop = c :: rest ∧
      t.dropBytes start = c :: (rest ++ t.dropBytes stop) := by
  cases hpiece : t.between start stop with
  | nil =>
    have hlength := byteLength_between (Nat.le_of_lt h) hstart hstop
    rw [hpiece, byteLength_nil] at hlength
    omega
  | cons c rest =>
    refine ⟨c, rest, rfl, ?_⟩
    rw [← between_append_dropBytes t (Nat.le_of_lt h), hpiece, List.cons_append]

end Text
end WebLint
