import WebLint.Proofs.Text.Lines
import WebLint.Text.Location

/-!
# Places lead back

A place tells a reader the way: past so many line feeds, and then past so many characters of
the line behind them.  Whoever goes that way ends where the offset is, or, when the offset falls
into a character or behind the text, at the last boundary in front of it.

What is proved here:

* `upto_ofOffset` — a smaller offset has no later place;
* `behind?_append` — behind the place where a piece of a text ends stands the rest;
* `isNearest_takeBytes` — where a cut at an offset is made;
* `ofOffset_leads_back` — boundaries are told apart by their places, in their order, any other
  offset has the place of the boundary in front of it, and the place leads there.
-/

namespace WebLint
namespace Text

/-! ## Going through a text -/

/-- What stands behind the first line feeds of a text, if it has so many. -/
def skipLines : Nat → Text → Option Text
  | 0, t => some t
  | _ + 1, [] => none
  | n + 1, c :: t => if c = '\n' then skipLines n t else skipLines (n + 1) t

/-- What stands behind the first characters of a line, if it has so many. -/
def skipChars : Nat → Text → Option Text
  | 0, t => some t
  | _ + 1, [] => none
  | n + 1, c :: t => if c = '\n' then none else skipChars n t

/-- Behind all its line feeds a text has come to the start of its last line. -/
theorem skipLines_append {u : Text} (hu : IsLineStart u) (v : Text) :
    skipLines (u.count '\n') (u ++ v) = some v := by
  induction u with
  | nil => simp [skipLines]
  | cons c u ih =>
    by_cases hc : c = '\n'
    · have hrest : IsLineStart u := by
        cases u with
        | nil => exact isLineStart_nil
        | cons d u => simpa [IsLineStart] using hu
      simp [hc, skipLines, ih hrest]
    · -- the line feed at the end of the piece stands behind this character
      have hne : u ≠ [] := by
        rintro rfl
        exact hc (hu c (by simp))
      have hrest : IsLineStart u := by
        obtain ⟨d, w, rfl⟩ := List.exists_cons_of_ne_nil hne
        simpa [IsLineStart] using hu
      obtain ⟨n, hn⟩ : ∃ n, u.count '\n' = n + 1 :=
        Nat.exists_eq_succ_of_ne_zero (Nat.ne_of_gt (List.count_pos_iff.2 (hrest.newline_mem hne)))
      rw [List.count_cons_of_ne hc, List.cons_append, hn, skipLines, if_neg hc, ← hn, ih hrest]

theorem skipChars_append {l : Text} (hl : '\n' ∉ l) (v : Text) :
    skipChars l.length (l ++ v) = some v := by
  induction l with
  | nil => simp [skipChars]
  | cons c l ih =>
    rw [List.mem_cons, not_or] at hl
    simp [skipChars, Ne.symm hl.1, ih hl.2]

/-! ## The boundary in front of an offset -/

/-- Whether an offset is the last boundary that does not lie behind another one. -/
structure IsNearest (t : Text) (n b : Nat) : Prop where
  /-- It falls between two characters. -/
  boundary : t.isBoundary b = true
  /-- It does not lie behind the other offset. -/
  le : b ≤ n
  /-- No boundary is nearer. -/
  last : ∀ m, t.isBoundary m = true → m ≤ n → m ≤ b

/-- A text is cut at an offset where the last boundary in front of it is. -/
theorem isNearest_takeBytes (t : Text) (n : Nat) : IsNearest t n (t.takeBytes n).byteLength where
  boundary := isBoundary_iff.2 ⟨_, _, (takeBytes_append_dropBytes t n).symm, rfl⟩
  le := byteLength_takeBytes_le t n
  last := by
    intro m hm hle
    have hlength := congrArg byteLength (takeBytes_append_between t hle)
    rw [byteLength_append, byteLength_takeBytes_of_isBoundary t m hm] at hlength
    omega

/-- Cutting at an offset is cutting at the boundary in front of it. -/
theorem IsNearest.takeBytes_eq {t : Text} {n b : Nat} (h : t.IsNearest n b) :
    t.takeBytes n = t.takeBytes b := by
  have hpiece := takeBytes_append_between t h.le
  have hlength := congrArg byteLength hpiece
  have hlast := h.last _ (isNearest_takeBytes t n).boundary (isNearest_takeBytes t n).le
  rw [byteLength_append, byteLength_takeBytes_of_isBoundary t b h.boundary] at hlength
  -- nothing stands between the boundary and the cut
  have hnil : t.between b n = [] := byteLength_eq_zero.1 (by omega)
  rw [← hpiece, hnil, List.append_nil]

end Text

namespace Location

/-! ## Places in order -/

/-- Whether a place comes no later than another one: in an earlier row, or no
further in the same row. -/
def Upto (a b : Location) : Prop := a.row < b.row ∨ a.row = b.row ∧ a.column ≤ b.column

/-- A smaller offset has no later place. -/
theorem upto_ofOffset (t : Text) {m n : Nat} (h : m ≤ n) :
    Upto (ofOffset t m) (ofOffset t n) := by
  have hcut := Text.takeBytes_append_between t h
  by_cases hnewline : '\n' ∈ t.between m n
  · have hcount := List.count_pos_iff.2 hnewline
    refine .inl ?_
    simp only [ofOffset, ← hcut, List.count_append]
    omega
  · have hcount := List.count_eq_zero.2 hnewline
    refine .inr ⟨?_, ?_⟩
    · simp only [ofOffset, ← hcut, List.count_append, hcount, Nat.add_zero]
    · simp only [ofOffset, ← hcut, Text.lastLine_append _ hnewline, List.length_append]
      omega

/-- Whether a place comes before another one: in an earlier row, or earlier in the same row. -/
def Before (a b : Location) : Prop := a.row < b.row ∨ a.row = b.row ∧ a.column < b.column

instance (a b : Location) : Decidable (Before a b) := inferInstanceAs (Decidable (_ ∨ _))

theorem Upto.before {a b : Location} (h : Upto a b) (hne : a ≠ b) : Before a b := by
  rcases h with hrow | ⟨hrow, hcolumn⟩
  · exact .inl hrow
  · refine .inr ⟨hrow, Nat.lt_of_le_of_ne hcolumn fun heq => hne ?_⟩
    cases a
    cases b
    simp_all

/-! ## Going to a place -/

/-- What stands behind a place of a text: its rows are left behind, and then the characters in
front of it. -/
def behind? (t : Text) (l : Location) : Option Text :=
  (Text.skipLines (l.row - 1) t).bind (Text.skipChars (l.column - 1))

/-- The offset of a place of a text. -/
def offset? (t : Text) (l : Location) : Option Nat :=
  (behind? t l).map fun rest => t.byteLength - rest.byteLength

/-- Behind the place where a piece of a text ends stands the rest of the text. -/
theorem behind?_append (u v : Text) :
    behind? (u ++ v) ⟨u.count '\n' + 1, u.lastLine.length + 1⟩ = some v := by
  obtain ⟨w, hw, hstart, hfree⟩ := Text.exists_append_lastLine u
  have hrows : u.count '\n' = w.count '\n' := by
    have hcount := congrArg (List.count '\n') hw
    rwa [List.count_append, List.count_eq_zero.2 hfree, Nat.add_zero] at hcount
  have hlines : Text.skipLines (u.count '\n') (u ++ v) = some (u.lastLine ++ v) := by
    have hskip := Text.skipLines_append hstart (u.lastLine ++ v)
    rwa [← List.append_assoc, ← hw, ← hrows] at hskip
  simp [behind?, hlines, Text.skipChars_append hfree]

/-- The place of an offset leads to where the text is cut at the offset. -/
theorem offset?_ofOffset (t : Text) (n : Nat) :
    offset? t (ofOffset t n) = some (t.takeBytes n).byteLength := by
  have hcut := Text.takeBytes_append_dropBytes t n
  have hbehind : behind? t (ofOffset t n) = some (t.dropBytes n) := by
    have h := behind?_append (t.takeBytes n) (t.dropBytes n)
    rwa [hcut] at h
  have hlength := congrArg Text.byteLength hcut
  rw [Text.byteLength_append] at hlength
  rw [offset?, hbehind, Option.map_some, Option.some.injEq]
  omega

/-- The place of an offset is the place of the boundary in front of it. -/
theorem ofOffset_of_isNearest {t : Text} {n b : Nat} (h : t.IsNearest n b) :
    ofOffset t n = ofOffset t b := by
  rw [ofOffset, ofOffset, h.takeBytes_eq]

/-- **Places lead back to offsets.**  The places of boundaries are strictly in the order of the
boundaries, and so they are told apart by them.  Every other offset, behind the text or not, has
the place of the nearest boundary in front of it; and the place leads there. -/
theorem ofOffset_leads_back (t : Text) :
    (∀ m n, t.isBoundary m = true → t.isBoundary n = true → m < n →
        Before (ofOffset t m) (ofOffset t n)) ∧
      (∀ m n, t.isBoundary m = true → t.isBoundary n = true →
        ofOffset t m = ofOffset t n → m = n) ∧
      ∀ n, ∃ b, t.IsNearest n b ∧ ofOffset t n = ofOffset t b ∧
        offset? t (ofOffset t n) = some b := by
  have hinjective : ∀ m n, t.isBoundary m = true → t.isBoundary n = true →
      ofOffset t m = ofOffset t n → m = n := by
    intro m n hm hn heq
    have hback := congrArg (offset? t) heq
    rw [offset?_ofOffset, offset?_ofOffset, Text.byteLength_takeBytes_of_isBoundary t m hm,
      Text.byteLength_takeBytes_of_isBoundary t n hn] at hback
    exact Option.some.inj hback
  refine ⟨?_, hinjective, ?_⟩
  · intro m n hm hn hlt
    refine (upto_ofOffset t (Nat.le_of_lt hlt)).before fun heq => ?_
    exact Nat.ne_of_lt hlt (hinjective m n hm hn heq)
  · intro n
    have hnearest := Text.isNearest_takeBytes t n
    exact ⟨_, hnearest, ofOffset_of_isNearest hnearest, offset?_ofOffset t n⟩

/-! ### An example -/

/-- A text of two lines, with a character of two bytes. -/
def accentedText : Text := "a\né!".toList

/-- The offset inside the character has the place of the character, and one behind the text has
the place of its end. -/
theorem ofOffset_accentedText :
    accentedText.isBoundary 2 = true ∧ accentedText.isBoundary 4 = true ∧
      Before (ofOffset accentedText 2) (ofOffset accentedText 4) ∧
      ofOffset accentedText 3 = ⟨2, 1⟩ ∧ ofOffset accentedText 9 = ⟨2, 3⟩ ∧
      ∃ b, accentedText.IsNearest 3 b ∧ ofOffset accentedText 3 = ofOffset accentedText b ∧
        offset? accentedText (ofOffset accentedText 3) = some b := by
  have hstart : accentedText.isBoundary 2 = true := by decide
  have hbehind : accentedText.isBoundary 4 = true := by decide
  obtain ⟨horder, -, hnearest⟩ := ofOffset_leads_back accentedText
  exact ⟨hstart, hbehind, horder 2 4 hstart hbehind (by decide), by decide, by decide,
    hnearest 3⟩

end Location
end WebLint
