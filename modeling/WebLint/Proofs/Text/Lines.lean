import Mathlib.Algebra.GroupWithZero.Nat
import WebLint.Proofs.Text.Cut
import WebLint.Text.Indent

/-!
# Lines and their places

A text is cut into lines at its line feeds, and each line has a place: the
offset it starts at.  The lines of a text are found again by joining them, and a
line is told from any other piece by what stands around it.

What is proved here:

* `join_lines`, `lines_join` — joining the lines of a text, and cutting joined
  lines;
* `mem_placedLines_iff` — a line and its place;
* `exists_append_lastLine` — where the line a text ends in starts;
* `IsLead.stop_lt`, `IsLead.row_lt` — the blanks at the starts of different
  lines stand apart, in different rows.
-/

namespace WebLint
namespace Text

/-! ## Joining lines -/

/-- Some lines, with line feeds between them. -/
def join (ls : List Text) : Text := ['\n'].intercalate ls

theorem lines_eq_splitOn (t : Text) : t.lines = List.splitOn '\n' t := by
  induction t with
  | nil => rfl
  | cons c t ih =>
    rw [lines, List.splitOn_cons_eq_if_modifyHead, ih]
    simp only [beq_iff_eq]
    split
    · rfl
    · obtain ⟨l, ls, hls⟩ := List.exists_cons_of_ne_nil (List.splitOn_ne_nil '\n' t)
      rw [hls]
      rfl

@[simp] theorem join_lines (t : Text) : join t.lines = t := by
  rw [join, lines_eq_splitOn, List.intercalate_splitOn]

theorem lines_join {ls : List Text} (hls : ∀ l ∈ ls, '\n' ∉ l) (hne : ls ≠ []) :
    (join ls).lines = ls := by
  rw [join, lines_eq_splitOn, List.splitOn_intercalate '\n' hls hne]

theorem lines_ne_nil (t : Text) : t.lines ≠ [] := by
  rw [lines_eq_splitOn]
  exact List.splitOn_ne_nil '\n' t

/-- A line feed ends a line. -/
theorem lines_append_newline (u v : Text) : (u ++ '\n' :: v).lines = u.lines ++ v.lines := by
  rw [lines_eq_splitOn, lines_eq_splitOn, lines_eq_splitOn, List.splitOn_append_cons_self]

theorem lines_of_not_mem {t : Text} (h : '\n' ∉ t) : t.lines = [t] := by
  rw [lines_eq_splitOn, List.splitOn_eq_singleton h]

theorem length_lines (t : Text) : t.lines.length = t.count '\n' + 1 := by
  induction t with
  | nil => rfl
  | cons c t ih =>
    obtain ⟨l, ls, hls⟩ := List.exists_cons_of_ne_nil (lines_ne_nil t)
    rw [lines]
    by_cases hc : c = '\n'
    · rw [if_pos hc, hc, List.length_cons, ih, List.count_cons_self]
    · rw [if_neg hc, hls, List.count_cons_of_ne hc, ← ih, hls]
      rfl

/-- A line holds no line feed. -/
theorem not_mem_of_mem_lines {t l : Text} (h : l ∈ t.lines) : '\n' ∉ l := by
  induction t generalizing l with
  | nil => simp_all [lines]
  | cons c t ih =>
    rw [lines] at h
    split at h
    · rcases List.mem_cons.1 h with rfl | h
      · exact List.not_mem_nil
      · exact ih h
    · rename_i hc
      obtain ⟨k, ls, hls⟩ := List.exists_cons_of_ne_nil (lines_ne_nil t)
      rw [hls] at h ih
      rcases List.mem_cons.1 h with rfl | h
      · rw [List.mem_cons, not_or]
        exact ⟨fun hn => hc hn.symm, ih List.mem_cons_self⟩
      · exact ih (List.mem_cons_of_mem k h)

theorem join_cons_of_ne_nil {l : Text} {ls : List Text} (h : ls ≠ []) :
    join (l :: ls) = l ++ '\n' :: join ls := by
  rw [join, List.intercalate_cons_of_ne_nil h, List.append_assoc]
  rfl

@[simp] theorem join_singleton (l : Text) : join [l] = l := List.intercalate_singleton

theorem join_append {as bs : List Text} (ha : as ≠ []) (hb : bs ≠ []) :
    join (as ++ bs) = join as ++ '\n' :: join bs := by
  induction as with
  | nil => exact absurd rfl ha
  | cons a as ih =>
    cases as with
    | nil => rw [List.singleton_append, join_cons_of_ne_nil hb, join_singleton]
    | cons a' as =>
      have hne : a' :: as ≠ [] := List.cons_ne_nil a' as
      rw [List.cons_append, join_cons_of_ne_nil (List.append_ne_nil_of_left_ne_nil hne bs), ih hne,
        join_cons_of_ne_nil hne, List.append_assoc]
      rfl

theorem join_append_cons (u l : Text) (ls : List Text) :
    join ((u ++ l) :: ls) = u ++ join (l :: ls) := by
  cases ls with
  | nil => simp
  | cons k ls =>
    rw [join_cons_of_ne_nil (List.cons_ne_nil k ls), join_cons_of_ne_nil (List.cons_ne_nil k ls),
      List.append_assoc]

/-! ## Places -/

/-- The bytes some lines take, each with a line feed behind it. -/
def extent (ls : List Text) : Nat := (ls.map fun l => l.byteLength + 1).sum

@[simp] theorem extent_nil : extent [] = 0 := rfl

@[simp] theorem extent_cons (l : Text) (ls : List Text) :
    extent (l :: ls) = l.byteLength + 1 + extent ls := rfl

theorem extent_append (as bs : List Text) : extent (as ++ bs) = extent as + extent bs := by
  rw [extent, List.map_append, List.sum_append]
  rfl

theorem byteLength_newline (v : Text) : byteLength ('\n' :: v) = 1 + v.byteLength := rfl

theorem extent_eq {ls : List Text} (h : ls ≠ []) : extent ls = (join ls).byteLength + 1 := by
  induction ls with
  | nil => exact absurd rfl h
  | cons l ls ih =>
    cases ls with
    | nil => simp
    | cons k ls =>
      have hne : k :: ls ≠ [] := List.cons_ne_nil k ls
      rw [extent_cons, ih hne, join_cons_of_ne_nil hne, byteLength_append, byteLength_newline]
      omega

theorem length_placeLines (start : Nat) (ls : List Text) :
    (placeLines start ls).length = ls.length := by
  induction ls generalizing start with
  | nil => rfl
  | cons l ls ih => rw [placeLines, List.length_cons, ih, List.length_cons]

theorem placeLines_append (start : Nat) (as bs : List Text) :
    placeLines start (as ++ bs) = placeLines start as ++ placeLines (start + extent as) bs := by
  induction as generalizing start with
  | nil => rfl
  | cons a as ih =>
    rw [List.cons_append, placeLines, placeLines, ih, extent_cons, List.cons_append]
    congr 3
    omega

theorem exists_of_mem_placeLines {start : Nat} {ls : List Text} {place : Nat × Text}
    (h : place ∈ placeLines start ls) :
    ∃ as bs, ls = as ++ place.2 :: bs ∧ place.1 = start + extent as := by
  induction ls generalizing start with
  | nil => cases h
  | cons l ls ih =>
    rcases List.mem_cons.1 h with rfl | h
    · exact ⟨[], ls, rfl, rfl⟩
    · obtain ⟨as, bs, rfl, hplace⟩ := ih h
      refine ⟨l :: as, bs, rfl, ?_⟩
      rw [hplace, extent_cons]
      omega

/-- The place of a line among the lines of a text. -/
theorem mem_placedLines_of_append {t l : Text} {as bs : List Text} (h : t.lines = as ++ l :: bs) :
    (extent as, l) ∈ t.placedLines := by
  rw [placedLines, h, placeLines_append, Nat.zero_add]
  exact List.mem_append_right _ List.mem_cons_self

/-- The number of a line is the row it starts in. -/
theorem row_extent {t l : Text} {as bs : List Text} (h : t.lines = as ++ l :: bs) :
    t.row (extent as) = as.length := by
  rcases List.eq_nil_or_concat as with rfl | ⟨init, a, has⟩
  · rw [extent_nil, row]
    have hnil : t.takeBytes 0 = [] := by simpa using takeBytes_append [] t
    rw [hnil]
    rfl
  · have hne : as ≠ [] := by simp [has]
    have htext : t = (join as ++ ['\n']) ++ join (l :: bs) := by
      rw [← join_lines t, h, join_append hne (List.cons_ne_nil l bs)]
      simp
    have hextent : (join as ++ ['\n']).byteLength = extent as := by
      rw [extent_eq hne, byteLength_append, byteLength_newline, byteLength_nil]
    have hlines : (join as).lines = as := by
      refine lines_join (fun k hk => not_mem_of_mem_lines (t := t) ?_) hne
      rw [h]
      exact List.mem_append_left _ hk
    rw [row, ← hextent, htext, takeBytes_append, List.count_append, ← hlines, length_lines, hlines]
    rfl

/-- Lines follow each other, with a line feed between them. -/
theorem pairwise_placeLines (start : Nat) (ls : List Text) :
    (placeLines start ls).Pairwise fun p q => p.1 + p.2.byteLength < q.1 := by
  induction ls generalizing start with
  | nil => exact .nil
  | cons l ls ih =>
    refine List.pairwise_cons.2 ⟨fun q hq => ?_, ih _⟩
    obtain ⟨as, bs, -, hplace⟩ := exists_of_mem_placeLines hq
    rw [hplace]
    change start + byteLength l < _
    omega

/-- Whether a line starts behind a text. -/
def IsLineStart (u : Text) : Prop := ∀ c ∈ u.getLast?, c = '\n'

instance (u : Text) : Decidable (IsLineStart u) :=
  Option.decidableForallMem u.getLast?

/-- Whether a line ends in front of a text. -/
def IsLineEnd (v : Text) : Prop := ∀ c ∈ v.head?, c = '\n'

/-- A line is a piece of the text without a line feed, where a line starts in
front of it and ends behind it, and its place is where it starts. -/
theorem mem_placedLines_iff {t : Text} {place : Nat × Text} :
    place ∈ t.placedLines ↔
      ∃ u v, t = u ++ place.2 ++ v ∧ u.byteLength = place.1 ∧ IsLineStart u ∧ IsLineEnd v ∧
        '\n' ∉ place.2 := by
  constructor
  · intro h
    obtain ⟨as, bs, hlines, hplace⟩ := exists_of_mem_placeLines h
    have hmem : place.2 ∈ t.lines := by
      rw [hlines]
      exact List.mem_append_right as List.mem_cons_self
    have htext : t = join (as ++ place.2 :: bs) := by rw [← hlines, join_lines]
    -- what stands behind the line
    obtain ⟨v, hv, hend⟩ : ∃ v, join (place.2 :: bs) = place.2 ++ v ∧ IsLineEnd v := by
      cases bs with
      | nil => exact ⟨[], by simp, fun c hc => by cases hc⟩
      | cons b bs =>
        refine ⟨'\n' :: join (b :: bs), join_cons_of_ne_nil (List.cons_ne_nil b bs), ?_⟩
        exact fun c hc => (Option.some.inj hc).symm
    cases as with
    | nil =>
      refine ⟨[], v, by rw [htext, List.nil_append, hv, List.nil_append], ?_, ?_, hend,
        not_mem_of_mem_lines hmem⟩
      · rw [hplace]
        rfl
      · exact fun c hc => by cases hc
    | cons a as =>
      have hne : a :: as ≠ [] := List.cons_ne_nil a as
      refine ⟨join (a :: as) ++ ['\n'], v, ?_, ?_, ?_, hend, not_mem_of_mem_lines hmem⟩
      · rw [htext, join_append hne (List.cons_ne_nil _ _), hv]
        simp
      · rw [hplace, extent_eq hne, byteLength_append, byteLength_newline, byteLength_nil]
        omega
      · intro c hc
        rw [List.getLast?_concat] at hc
        exact (Option.some.inj hc).symm
  · rintro ⟨u, v, htext, hplace, hstart, hend, hfree⟩
    -- the line is the first one of what stands behind `u`
    obtain ⟨bs, hbs⟩ : ∃ bs, (place.2 ++ v).lines = place.2 :: bs := by
      cases v with
      | nil => exact ⟨[], by rw [List.append_nil, lines_of_not_mem hfree]⟩
      | cons c v =>
        obtain rfl : c = '\n' := hend c rfl
        exact ⟨lines v, by rw [lines_append_newline, lines_of_not_mem hfree]; rfl⟩
    have hmem : ∀ start, (start, place.2) ∈ placeLines start (place.2 :: bs) := fun start =>
      List.mem_cons_self
    rcases List.eq_nil_or_concat u with rfl | ⟨w, c, rfl⟩
    · rw [List.nil_append] at htext
      rw [placedLines, htext, hbs, ← show (0, place.2) = place from Prod.ext hplace rfl]
      exact hmem 0
    · obtain rfl : c = '\n' := hstart c (by simp)
      have hlines : t.lines = lines w ++ place.2 :: bs := by
        rw [htext, ← hbs, ← lines_append_newline]
        simp
      rw [placedLines, hlines, placeLines_append, List.mem_append]
      refine Or.inr ?_
      have hextent : 0 + extent (lines w) = place.1 := by
        rw [← hplace, extent_eq (lines_ne_nil w), join_lines, List.concat_eq_append,
          byteLength_append, byteLength_newline, byteLength_nil]
        omega
      rw [hextent]
      exact hmem place.1

/-- The lines of a text hold no other characters than the text. -/
theorem mem_of_mem_lines {t l : Text} (h : l ∈ t.lines) {c : Char} (hc : c ∈ l) : c ∈ t := by
  obtain ⟨as, bs, hlines⟩ := List.append_of_mem h
  obtain ⟨u, v, htext, -⟩ := mem_placedLines_iff.1 (mem_placedLines_of_append hlines)
  rw [htext]
  exact List.mem_append_left v (List.mem_append_right u hc)

/-! ## The line of an offset -/

/-- The line in which a text ends starts behind a line feed, or with the text. -/
theorem exists_append_lastLine (t : Text) :
    ∃ u, t = u ++ t.lastLine ∧ IsLineStart u ∧ '\n' ∉ t.lastLine := by
  refine ⟨(t.reverse.dropWhile (· != '\n')).reverse, ?_, ?_, ?_⟩
  · rw [lastLine, ← List.reverse_append, List.takeWhile_append_dropWhile, List.reverse_reverse]
  · intro c hc
    rw [List.getLast?_reverse] at hc
    have hhead := List.head?_dropWhile_not (· != '\n') t.reverse
    rw [Option.mem_def.1 hc] at hhead
    simpa using hhead
  · rw [lastLine, List.mem_reverse]
    intro hmem
    have hne := List.all_eq_true.1 List.all_takeWhile _ hmem
    simp at hne

theorem byteLength_lastLine_le (t : Text) : t.lastLine.byteLength ≤ t.byteLength := by
  obtain ⟨u, hu, -⟩ := exists_append_lastLine t
  have h := congrArg byteLength hu
  rw [byteLength_append] at h
  omega

/-- What is added to a line, without ending it, stands in the last line. -/
theorem lastLine_append (u : Text) {v : Text} (h : '\n' ∉ v) :
    (u ++ v).lastLine = u.lastLine ++ v := by
  have hkept : ∀ c ∈ v.reverse, (c != '\n') = true := fun c hc => by
    rw [bne_iff_ne]
    rintro rfl
    exact h (List.mem_reverse.1 hc)
  rw [lastLine, List.reverse_append, List.takeWhile_append_of_pos hkept, List.reverse_append,
    List.reverse_reverse, lastLine]

/-- Where a line starts, it is empty so far. -/
theorem lastLine_of_isLineStart {u : Text} (h : IsLineStart u) : u.lastLine = [] := by
  rcases List.eq_nil_or_concat u with rfl | ⟨w, c, rfl⟩
  · rfl
  · obtain rfl : c = '\n' := h c (by simp)
    simp [lastLine]

/-- Where a line starts behind a piece, it does so behind what stands in front of the piece
too. -/
theorem isLineStart_append {u v : Text} (hu : v = [] → IsLineStart u) (hv : IsLineStart v) :
    IsLineStart (u ++ v) := by
  intro c hc
  rw [List.getLast?_append] at hc
  cases hlast : v.getLast? with
  | none =>
    rw [hlast, Option.none_or] at hc
    exact hu (List.getLast?_eq_none_iff.1 hlast) c hc
  | some d =>
    rw [hlast, Option.some_or] at hc
    obtain rfl := Option.some.inj hc
    exact hv d hlast

theorem isLineStart_nil : IsLineStart [] := fun c hc => by cases hc

theorem isLineStart_of_append {u v : Text} (h : IsLineStart (u ++ v)) : IsLineStart v :=
  fun c hc => h c (by rw [List.getLast?_append, Option.mem_def.1 hc]; rfl)

/-- A piece at whose end a line starts ends with a line feed. -/
theorem IsLineStart.newline_mem {u : Text} (h : IsLineStart u) (hne : u ≠ []) : '\n' ∈ u := by
  have hlast := List.getLast?_eq_some_getLast hne
  rw [h _ hlast] at hlast
  exact List.mem_of_getLast? hlast

/-- What stands in front of a line feed is in another line. -/
theorem lastLine_append_of_mem (u : Text) {v : Text} (h : '\n' ∈ v) :
    (u ++ v).lastLine = v.lastLine := by
  obtain ⟨w, hw, hstart, hfree⟩ := exists_append_lastLine v
  have hne : w ≠ [] := by
    rintro rfl
    rw [hw] at h
    exact hfree h
  rw [hw, ← List.append_assoc, lastLine_append _ hfree, lastLine_append _ hfree,
    lastLine_of_isLineStart hstart,
    lastLine_of_isLineStart (isLineStart_append (fun hnil => absurd hnil hne) hstart)]

/-! ## The blanks a line starts with -/

/-- Whether the bytes `start..stop` of a text are all the blanks some line starts
with. -/
def IsLead (t : Text) (start stop : Nat) : Prop :=
  ∃ u blanks v, t = u ++ blanks ++ v ∧ u.byteLength = start ∧ start + blanks.byteLength = stop ∧
    IsLineStart u ∧ blanks.all Indent.isBlank = true ∧ ∀ c ∈ v.head?, Indent.isBlank c = false

theorem isBlank_newline : Indent.isBlank '\n' = false := by decide

/-- There is no line feed among blanks. -/
theorem not_mem_of_isBlank {blanks : Text} (h : blanks.all Indent.isBlank = true) :
    '\n' ∉ blanks := by
  intro hmem
  have hblank := List.all_eq_true.1 h _ hmem
  rw [isBlank_newline] at hblank
  cases hblank

/-- Where blanks end. -/
theorem isBlank_head_dropWhile (line : Text) {v : Text} (hv : IsLineEnd v) :
    ∀ c ∈ (line.dropWhile Indent.isBlank ++ v).head?, Indent.isBlank c = false := by
  intro c hc
  have hhead := List.head?_dropWhile_not Indent.isBlank line
  cases hrest : line.dropWhile Indent.isBlank with
  | nil =>
    rw [hrest, List.nil_append] at hc
    rw [hv c hc, isBlank_newline]
  | cons d rest =>
    rw [hrest] at hc hhead
    obtain rfl : d = c := Option.some.inj hc
    exact hhead

/-- In front of something that is no blank, blanks are the indentation of a line. -/
theorem ofLine_append {blanks rest : Text} (hblanks : blanks.all Indent.isBlank = true)
    (hrest : ∀ c ∈ rest.head?, Indent.isBlank c = false) :
    Indent.ofLine (blanks ++ rest) = blanks ∧
      (blanks ++ rest).dropWhile Indent.isBlank = rest := by
  have hall := List.all_eq_true.1 hblanks
  rw [Indent.ofLine, List.takeWhile_append_of_pos hall, List.dropWhile_append_of_pos hall]
  cases rest with
  | nil => simp
  | cons c rest => simp [hrest c rfl]

/-- A line is its indentation and what stands behind it. -/
theorem ofLine_append_dropWhile (line : Text) :
    Indent.ofLine line ++ line.dropWhile Indent.isBlank = line :=
  List.takeWhile_append_dropWhile

theorem byteLength_ofLine_le (line : Text) : (Indent.ofLine line).byteLength ≤ line.byteLength := by
  have h := congrArg byteLength (ofLine_append_dropWhile line)
  rw [byteLength_append] at h
  omega

/-- The indentation of a line is all the blanks it starts with. -/
theorem isLead_of_mem_placedLines {t : Text} {place : Nat × Text} (h : place ∈ t.placedLines) :
    t.IsLead place.1 (place.1 + (Indent.ofLine place.2).byteLength) := by
  obtain ⟨u, v, htext, hplace, hstart, hend, -⟩ := mem_placedLines_iff.1 h
  refine ⟨u, Indent.ofLine place.2, place.2.dropWhile Indent.isBlank ++ v, ?_, hplace, rfl, hstart,
    List.all_takeWhile, isBlank_head_dropWhile place.2 hend⟩
  calc t = u ++ (Indent.ofLine place.2 ++ place.2.dropWhile Indent.isBlank) ++ v := by
        rw [ofLine_append_dropWhile, htext]
    _ = _ := by simp only [List.append_assoc]

/-- What is counted at the start of a line ends in front of something else. -/
theorem takeWhile_append_cons {p : Char → Bool} {c : Char} (u v : Text) (hc : p c = false) :
    (u ++ c :: v).takeWhile p = u.takeWhile p := by
  induction u with
  | nil => exact List.takeWhile_cons_of_neg (by simp [hc])
  | cons d u ih => simp only [List.cons_append, List.takeWhile_cons, ih]

/-- Of spaces in front of something that is no blank all are counted. -/
theorem takeWhile_spaces_append (width : Nat) {v : Text}
    (hv : ∀ c ∈ v.head?, Indent.isBlank c = false) :
    (Indent.spaces width ++ v).takeWhile (· == ' ') = Indent.spaces width := by
  have hall : ∀ c ∈ Indent.spaces width, (c == ' ') = true := fun c hc =>
    beq_iff_eq.2 (List.eq_of_mem_replicate hc)
  have hnil : v.takeWhile (· == ' ') = [] := by
    cases v with
    | nil => rfl
    | cons c v =>
      have hc := hv c rfl
      rw [Indent.isBlank, Bool.or_eq_false_iff] at hc
      exact List.takeWhile_cons_of_neg (by simp [hc.1])
  rw [List.takeWhile_append_of_pos hall, hnil, List.append_nil]

theorem isBlank_of_isSpace {c : Char} (h : Text.isSpace c = false) : Indent.isBlank c = false := by
  cases hblank : Indent.isBlank c with
  | false => rfl
  | true =>
    simp only [Indent.isBlank, Bool.or_eq_true, beq_iff_eq] at hblank
    rcases hblank with rfl | rfl
    · exact absurd h (by decide)
    · exact absurd h (by decide)

namespace IsLead

variable {t : Text} {start stop start' stop' p : Nat}

theorem le (h : t.IsLead start stop) : start ≤ stop := by
  obtain ⟨u, blanks, v, -, -, hstop, -⟩ := h
  omega

theorem boundary (h : t.IsLead start stop) :
    t.isBoundary start = true ∧ t.isBoundary stop = true := by
  obtain ⟨u, blanks, v, htext, hstart, hstop, -⟩ := h
  refine ⟨isBoundary_iff.2 ⟨u, blanks ++ v, by rw [htext, List.append_assoc], hstart⟩,
    isBoundary_iff.2 ⟨u ++ blanks, v, htext, ?_⟩⟩
  rw [byteLength_append]
  omega

/-- A line starts there. -/
theorem isLineStart (h : t.IsLead start stop) : IsLineStart (t.takeBytes start) := by
  obtain ⟨u, blanks, v, rfl, rfl, -, hline, -⟩ := h
  rwa [List.append_assoc, takeBytes_append]

/-- The blanks, and what stands behind them. -/
theorem exists_append (h : t.IsLead start stop) : ∃ blanks : Text,
    t.dropBytes start = blanks ++ t.dropBytes stop ∧ blanks.all Indent.isBlank = true := by
  obtain ⟨u, blanks, v, rfl, rfl, rfl, -, hblank, -⟩ := h
  refine ⟨blanks, ?_, hblank⟩
  rw [← byteLength_append, dropBytes_append, List.append_assoc, dropBytes_append]

/-- Between these places stand blanks. -/
theorem all_isBlank (h : t.IsLead start stop) :
    (t.between start stop).all Indent.isBlank = true := by
  obtain ⟨blanks, hdrop, hblanks⟩ := h.exists_append
  rw [← between_append_dropBytes t h.le] at hdrop
  rwa [List.append_cancel_right hdrop]

/-- The characters a line starts with are blanks. -/
theorem isBlank_head (h : t.IsLead start stop) (hp : t.isBoundary p = true) (hle : start ≤ p)
    (hlt : p < stop) : ∃ c rest, t.dropBytes p = c :: rest ∧ Indent.isBlank c = true := by
  obtain ⟨u, blanks, v, htext, hstart, hstop, -, hblank, -⟩ := h
  obtain ⟨a, b, ht, ha⟩ := isBoundary_iff.1 hp
  have hcut : u ++ (blanks ++ v) = a ++ b := by rw [← ht, htext, List.append_assoc]
  obtain ⟨w, hw, hrest⟩ := exists_append_of_byteLength_le hcut (by omega)
  rw [hw, byteLength_append] at ha
  obtain ⟨x, hx, hb⟩ := exists_append_of_byteLength_le hrest.symm (by omega)
  rw [ht, ← ha, ← byteLength_append, ← hw, dropBytes_append, hb]
  cases x with
  | nil =>
    rw [hx, List.append_nil] at hstop
    omega
  | cons c x =>
    refine ⟨c, x ++ v, rfl, List.all_eq_true.1 hblank c ?_⟩
    rw [hx]
    exact List.mem_append_right w List.mem_cons_self

/-- What ends among the blanks a line starts with ends with a blank. -/
theorem isBlank_getLast (h : t.IsLead start stop) (hp : t.isBoundary p = true) (hlt : start < p)
    (hle : p ≤ stop) : ∀ c ∈ (t.takeBytes p).getLast?, Indent.isBlank c = true := by
  obtain ⟨u, blanks, v, htext, hstart, hstop, -, hblank, -⟩ := h
  obtain ⟨a, b, ht, ha⟩ := isBoundary_iff.1 hp
  have hcut : u ++ (blanks ++ v) = a ++ b := by rw [← ht, htext, List.append_assoc]
  obtain ⟨w, hw, hrest⟩ := exists_append_of_byteLength_le hcut (by omega)
  rw [hw, byteLength_append] at ha
  obtain ⟨x, hx, -⟩ := exists_append_of_byteLength_le hrest.symm (by omega)
  have hne : w ≠ [] := by
    rintro rfl
    rw [byteLength_nil] at ha
    omega
  have hlast : (u ++ w).getLast? = w.getLast? := by
    rw [List.getLast?_append, List.getLast?_eq_some_getLast hne, Option.some_or]
  intro c hc
  rw [ht, ← ha, ← byteLength_append, ← hw, takeBytes_append, hw, hlast] at hc
  refine List.all_eq_true.1 hblank c ?_
  rw [hx]
  exact List.mem_append_left x (List.mem_of_getLast? hc)

/-- Where the blanks end there is no blank. -/
theorem isBlank_head_stop (h : t.IsLead start stop) :
    ∀ c ∈ (t.dropBytes stop).head?, Indent.isBlank c = false := by
  obtain ⟨u, blanks, v, htext, hstart, hstop, -, -, hend⟩ := h
  rw [htext, ← hstop, ← hstart, ← byteLength_append, dropBytes_append]
  exact hend

/-- The blanks of a line end in one place. -/
theorem stop_eq (h : t.IsLead start stop) (h' : t.IsLead start stop') : stop = stop' := by
  -- otherwise the shorter ones would end in front of a blank
  have hle : ∀ {a b : Nat}, t.IsLead start a → t.IsLead start b → b ≤ a := by
    intro a b ha hb
    refine Nat.le_of_not_lt fun hlt => ?_
    obtain ⟨c, rest, hrest, hblank⟩ := hb.isBlank_head ha.boundary.2 ha.le hlt
    have hstop := ha.isBlank_head_stop c (by rw [hrest]; rfl)
    rw [hstop] at hblank
    cases hblank
  exact Nat.le_antisymm (hle h' h) (hle h h')

/-- Between the starts of two lines there is a line feed, behind the blanks of
the first. -/
theorem exists_newline (h : t.IsLead start stop) (h' : t.IsLead start' stop')
    (hlt : start < start') :
    ∃ u w v, t = u ++ w ++ '\n' :: v ∧ u.byteLength = start ∧
      start + w.byteLength + 1 = start' ∧ stop ≤ start + w.byteLength := by
  obtain ⟨u, blanks, v, htext, hstart, hstop, -, hblank, -⟩ := h
  obtain ⟨u', blanks', v', htext', hstart', -, hline, -, -⟩ := h'
  have hcut : u ++ (blanks ++ v) = u' ++ (blanks' ++ v') := by
    rw [← List.append_assoc, ← List.append_assoc, ← htext, htext']
  obtain ⟨x, hx, hrest⟩ := exists_append_of_byteLength_le hcut (by omega)
  rcases List.eq_nil_or_concat x with rfl | ⟨w, c, rfl⟩
  · rw [List.append_nil] at hx
    rw [hx] at hstart'
    omega
  rw [List.concat_eq_append] at hx hrest
  obtain rfl : c = '\n' := hline c (by rw [hx, ← List.append_assoc, List.getLast?_concat]; rfl)
  rw [hx, byteLength_append, byteLength_append, byteLength_newline, byteLength_nil] at hstart'
  refine ⟨u, w, blanks' ++ v', ?_, hstart, by omega, ?_⟩
  · rw [htext', hx]
    simp
  · -- otherwise the line feed would be one of the blanks
    refine Nat.le_of_not_lt fun hlonger => ?_
    have hsplit : (w ++ ['\n']) ++ (blanks' ++ v') = blanks ++ v := hrest.symm
    obtain ⟨y, hy, -⟩ := exists_append_of_byteLength_le hsplit (by
      rw [byteLength_append, byteLength_newline, byteLength_nil]
      omega)
    refine not_mem_of_isBlank hblank ?_
    rw [hy]
    simp

/-- The blanks of a line end before a later line starts. -/
theorem stop_lt (h : t.IsLead start stop) (h' : t.IsLead start' stop') (hlt : start < start') :
    stop < start' := by
  obtain ⟨u, w, v, -, -, hstart', hstop⟩ := h.exists_newline h' hlt
  omega

/-- What stands in front of a line is in an earlier row. -/
theorem row_lt_of_lt (h : t.IsLead start stop) (hp : t.isBoundary p = true) (hlt : p < start) :
    t.row p < t.row start := by
  have hline := h.isLineStart
  have hlength := byteLength_takeBytes_of_isBoundary t _ h.boundary.1
  have hpiece := takeBytes_append_between t (Nat.le_of_lt hlt)
  obtain ⟨w, c, hw⟩ : ∃ w c, t.between p start = w ++ [c] := by
    rcases List.eq_nil_or_concat (t.between p start) with hnil | ⟨w, c, hw⟩
    · have hempty := byteLength_between (Nat.le_of_lt hlt) hp h.boundary.1
      rw [hnil, byteLength_nil] at hempty
      omega
    · exact ⟨w, c, by rw [hw, List.concat_eq_append]⟩
  obtain rfl : c = '\n' := hline c (by rw [← hpiece, hw, ← List.append_assoc]; simp)
  rw [row, row, ← hpiece, hw, List.count_append, List.count_append, List.count_singleton_self]
  omega

/-- A line is in an earlier row than a later one. -/
theorem row_lt (h : t.IsLead start stop) (h' : t.IsLead start' stop') (hlt : start < start') :
    t.row start < t.row start' :=
  h'.row_lt_of_lt h.boundary.1 hlt

end IsLead

end Text
end WebLint
