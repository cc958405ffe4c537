import Mathlib.Data.List.Pairwise
import WebLint.Document
import WebLint.Proofs.Fixing.Reindent
import WebLint.Proofs.Tree.Moves

/-!
# The regions of markup

The style regions of markup stand between tags.  When the indentation of lines in them
changes, each region still holds the places it has held, but how far its statements are
indented is read off the new text.

What is proved here:

* `Region.firstIndent_append` — how far a region is indented, from what it starts with;
* `Region.ofMarkup_mapSpan` — the regions of markup that has moved;
* `Region.Embedded.start_le`, `Region.Embedded.le_stop` — a region that has moved holds
  what it has held;
* `Region.Embedded.firstIndent_moved` — a region that has moved is indented as far as before,
  unless the line it is indented by has another indentation;
* `Document.isMoved_ofFile` — the regions of a file move along with its markup.
-/

namespace WebLint

open Fixing

namespace Region

/-! ## First lines -/

/-- Blank text is not indented. -/
theorem firstIndent_of_isBlank {t : Text} (h : Text.isBlank t = true) : firstIndent t = 0 := by
  have hblank : ∀ l ∈ t.lines, Text.isBlank l = true := fun l hl =>
    List.all_eq_true.2 fun c hc => List.all_eq_true.1 h c (Text.mem_of_mem_lines hl hc)
  have hnone : t.lines.find? (fun l => !Text.isBlank l) = none :=
    List.find?_eq_none.2 fun l hl => by simp [hblank l hl]
  rw [firstIndent, hnone]

/-- Of a text that is not blank the line is indented in which the white space at its start
ends. -/
theorem firstIndent_append {w rest : Text} {c : Char} (hw : Text.isBlank w = true)
    (hc : Text.isSpace c = false) :
    firstIndent (w ++ c :: rest) = (w.lastLine.takeWhile (· == ' ')).length := by
  have hnewline : c ≠ '\n' := by
    rintro rfl
    exact absurd hc (by decide)
  have hspace : (c == ' ') = false := by
    rw [beq_eq_false_iff_ne]
    rintro rfl
    exact absurd hc (by decide)
  obtain ⟨u, hu, hstart, hfree⟩ := Text.exists_append_lastLine w
  obtain ⟨l, ls, hls⟩ := List.exists_cons_of_ne_nil (Text.lines_ne_nil rest)
  have hfirst : Text.lines (c :: rest) = (c :: l) :: ls := by
    rw [Text.lines, if_neg hnewline, hls]
  have hlines := Text.lines_append_of_not_mem hfree hfirst
  -- the lines in front of this one are blank
  obtain ⟨front, hfront, hblank⟩ : ∃ front : List Text,
      Text.lines (w ++ c :: rest) = front ++ (w.lastLine ++ c :: l) :: ls ∧
        ∀ k ∈ front, Text.isBlank k = true := by
    rcases List.eq_nil_or_concat u with rfl | ⟨v, d, rfl⟩
    · refine ⟨[], ?_, fun k hk => absurd hk List.not_mem_nil⟩
      rw [List.nil_append] at hu
      rw [List.nil_append, ← hlines, ← hu]
    · obtain rfl : d = '\n' := hstart d (by simp)
      refine ⟨Text.lines v, ?_, fun k hk => List.all_eq_true.2 fun e he => ?_⟩
      · rw [← hlines, ← Text.lines_append_newline]
        nth_rewrite 1 [hu]
        simp
      · refine List.all_eq_true.1 hw e ?_
        rw [hu]
        simp [Text.mem_of_mem_lines hk he]
  have hnone : front.find? (fun k => !Text.isBlank k) = none :=
    List.find?_eq_none.2 fun k hk => by simp [hblank k hk]
  have hsome : Text.isBlank (w.lastLine ++ c :: l) = false := by simp [Text.isBlank, hc]
  rw [firstIndent, hfront, List.find?_append, hnone, Option.none_or,
    List.find?_cons_of_pos (by simp [hsome])]
  exact congrArg List.length (Text.takeWhile_append_cons _ _ hspace)

/-! ## Regions that move -/

/-- A region with another range, in another text. -/
def moved (g : Span → Span) (t : Text) (r : Region) : Region :=
  ⟨g r.span, firstIndent (t.at (g r.span))⟩

section

variable {t : Text} {language : Language}

/-- In an element of the language the search takes the raw texts directly in it. -/
theorem ofMarkup_of_kind {n : Node} (h : n.kind = elementKind language) :
    ofMarkup t language n = ofElement t n := by
  obtain ⟨l, cs⟩ := n
  exact if_pos h

/-- Elsewhere it goes on with the named children. -/
theorem ofMarkup_of_kind_ne {n : Node} (h : n.kind ≠ elementKind language) :
    ofMarkup t language n = n.namedChildren.flatMap (ofMarkup t language) := by
  obtain ⟨l, cs⟩ := n
  have hsearch : ofMarkup t language (.mk l cs) = ofMarkupAll t language cs := if_neg h
  have hnamed : ∀ ns : List Node, ofMarkupAll t language ns =
      (ns.filter (·.isNamed)).flatMap (ofMarkup t language) := by
    intro ns
    induction ns with
    | nil => rfl
    | cons n ns ih =>
      rw [ofMarkupAll, ih, List.filter_cons]
      split <;> simp
  rw [hsearch, hnamed]
  rfl

/-- How far a region of markup is indented. -/
theorem baseIndent_of_mem_ofMarkup {n : Node} {r : Region} (h : r ∈ ofMarkup t language n) :
    r.baseIndent = firstIndent (t.at r.span) := by
  induction n using Node.induction with
  | step l cs ih =>
    by_cases hkind : (Node.mk l cs).kind = elementKind language
    · rw [ofMarkup_of_kind hkind, ofElement] at h
      split at h
      · obtain ⟨m, -, rfl⟩ := List.mem_map.1 h
        rfl
      · cases h
    · rw [ofMarkup_of_kind_ne hkind] at h
      obtain ⟨c, hc, hr⟩ := List.mem_flatMap.1 h
      exact ih c (List.mem_filter.1 hc).1 hr

/-- The style regions of markup that has moved. -/
theorem ofMarkup_mapSpan {t' : Text} {g : Span → Span} (n : Node) :
    ofMarkup t' .style (n.mapSpan g) = (ofMarkup t .style n).map (moved g t') := by
  induction n using Node.induction with
  | step l cs ih =>
    by_cases hstyle : (Node.mk l cs).kind = elementKind .style
    · have hstyle' : ((Node.mk l cs).mapSpan g).kind = elementKind .style := by
        rwa [Node.kind_mapSpan]
      have hholds : ∀ (s : Text) (m : Node), m.kind = elementKind .style →
          holdsCode s m = true := by
        intro s m hm
        rw [holdsCode, hm]
        rfl
      rw [ofMarkup_of_kind hstyle, ofMarkup_of_kind hstyle', ofElement, ofElement,
        if_pos (hholds t' _ hstyle'), if_pos (hholds t _ hstyle), Node.namedChildren_mapSpan,
        List.filter_map, List.map_map, List.map_map]
      simp only [Function.comp_def, Node.kind_mapSpan, Node.span_mapSpan, Node.text]
      rfl
    · have hother : ((Node.mk l cs).mapSpan g).kind ≠ elementKind .style := by
        rwa [Node.kind_mapSpan]
      rw [ofMarkup_of_kind_ne hstyle, ofMarkup_of_kind_ne hother, Node.namedChildren_mapSpan,
        List.flatMap_map, List.map_flatMap]
      exact List.flatMap_congr fun c hc => ih c (List.mem_filter.1 hc).1

end

/-! ## Regions between tags -/

/-- Whether regions stand in a text as those of markup do: behind the tag that opens an
element, and in front of the one that closes it. -/
structure Embedded (t : Text) (regions : List Region) : Prop where
  /-- No region ends in front of its start. -/
  ordered : ∀ r ∈ regions, r.span.start ≤ r.span.stop
  /-- Regions start and end between characters. -/
  boundary : ∀ r ∈ regions, t.isBoundary r.span.start = true ∧ t.isBoundary r.span.stop = true
  /-- In its first line something stands in front of a region: the end of a tag. -/
  opened : ∀ r ∈ regions, ¬ Text.IsLineStart (t.takeBytes r.span.start)
  /-- Between two regions stands something. -/
  apart : regions.Pairwise fun r s => r.span.stop < s.span.start

instance (t : Text) (regions : List Region) : Decidable (Embedded t regions) :=
  decidable_of_iff
    ((∀ r ∈ regions, r.span.start ≤ r.span.stop) ∧
      (∀ r ∈ regions, t.isBoundary r.span.start = true ∧ t.isBoundary r.span.stop = true) ∧
      (∀ r ∈ regions, ¬ Text.IsLineStart (t.takeBytes r.span.start)) ∧
      regions.Pairwise fun r s => r.span.stop < s.span.start)
    ⟨fun ⟨ho, hb, hs, ha⟩ => ⟨ho, hb, hs, ha⟩, fun ⟨ho, hb, hs, ha⟩ => ⟨ho, hb, hs, ha⟩⟩

namespace Embedded

variable {t : Text} {fs : List Fix} {regions : List Region} {r s : Region} {p : Nat}

theorem eq_or_apart (h : Embedded t regions) (hr : r ∈ regions) (hs : s ∈ regions) :
    r = s ∨ r.span.stop < s.span.start ∨ s.span.stop < r.span.start := by
  have hsymm : Std.Symm fun r s : Region =>
      r.span.stop < s.span.start ∨ s.span.stop < r.span.start := ⟨fun _ _ hrs => hrs.symm⟩
  have hapart : regions.Pairwise fun r s =>
      r.span.stop < s.span.start ∨ s.span.stop < r.span.start := h.apart.imp Or.inl
  by_cases heq : r = s
  · exact Or.inl heq
  · exact Or.inr (hapart.forall hr hs heq)

/-- A place is held by one region. -/
theorem eq_of_holds (h : Embedded t regions) (hr : r ∈ regions) (hs : s ∈ regions)
    (hrp : r.span.start ≤ p ∧ p ≤ r.span.stop) (hsp : s.span.start ≤ p ∧ p ≤ s.span.stop) :
    r = s := by
  rcases h.eq_or_apart hr hs with heq | hapart
  · exact heq
  · omega

/-- A region cut into two parts. -/
theorem cut_at (h : Embedded t regions) (hr : r ∈ regions) {u v : Text}
    (hregion : t.at r.span = u ++ v) :
    r.span.start + u.byteLength + v.byteLength = r.span.stop ∧
      t.isBoundary (r.span.start + u.byteLength) = true ∧
      t.between r.span.start (r.span.start + u.byteLength) = u ∧
      t.dropBytes (r.span.start + u.byteLength) = v ++ t.dropBytes r.span.stop := by
  obtain ⟨hstart, hstop⟩ := h.boundary r hr
  have hordered := h.ordered r hr
  have hpiece : t.between r.span.start r.span.stop = u ++ v :=
    (Text.slice_eq_between t hstart hordered).symm.trans hregion
  have hlength := Text.byteLength_between hordered hstart hstop
  rw [hpiece, Text.byteLength_append] at hlength
  refine ⟨by omega, Text.cut_append hstart ?_⟩
  rw [← Text.between_append_dropBytes t hordered, hpiece, List.append_assoc]

/-- White space stands at the start of a region, up to the first character that is none. -/
theorem isBlank_margin (h : Embedded t regions) (hr : r ∈ regions) {a b : Nat}
    (hstart : r.span.start ≤ a) (hle : a ≤ b)
    (hstop : b ≤ r.span.start + Text.byteLength ((t.at r.span).takeWhile Text.isSpace)) :
    Text.isBlank (t.between a b) = true := by
  obtain ⟨-, -, hmargin, -⟩ := h.cut_at hr List.takeWhile_append_dropWhile.symm
  rw [← Text.between_append_between t hstart (Nat.le_trans hle hstop),
    ← Text.between_append_between t hle hstop] at hmargin
  refine List.all_eq_true.2 fun c hc => ?_
  refine List.all_eq_true.1 (List.all_takeWhile (l := t.at r.span)) c ?_
  rw [← hmargin]
  exact List.mem_append_right _ (List.mem_append_left _ hc)

/-- Fixes inside regions do not reach over their ends. -/
theorem kept_stop (h : Embedded t regions)
    (hin : ∀ f ∈ fs, ∃ s ∈ regions, s.span.start ≤ f.start ∧ f.stop ≤ s.span.stop)
    (hr : r ∈ regions) : ∀ f ∈ fs, f.start ≤ r.span.stop → f.stop ≤ r.span.stop := by
  intro f hf hle
  obtain ⟨s, hs, hstart, hstop⟩ := hin f hf
  have hordered := h.ordered r hr
  rcases h.eq_or_apart hr hs with rfl | hapart
  · exact hstop
  · omega

theorem uncut_start (h : Embedded t regions)
    (hin : ∀ f ∈ fs, ∃ s ∈ regions, s.span.start ≤ f.start ∧ f.stop ≤ s.span.stop)
    (hr : r ∈ regions) : ∀ f ∈ fs, ¬ f.Cuts r.span.start := by
  rintro f hf ⟨hlt, hgt⟩
  obtain ⟨s, hs, hstart, hstop⟩ := hin f hf
  have hordered := h.ordered r hr
  rcases h.eq_or_apart hr hs with rfl | hapart
  · omega
  · omega

variable (h : Embedded t regions) (hfs : Reindents t fs)
  (hin : ∀ f ∈ fs, ∃ s ∈ regions, s.span.start ≤ f.start ∧ f.stop ≤ s.span.stop)
  (hr : r ∈ regions)
include h hfs hin hr

/-- What stands in a region that has moved has stood in it. -/
theorem start_le (hkept : ∀ f ∈ fs, f.start ≤ p → f.stop ≤ p)
    (hle : (moveSpan fs r.span).start ≤ moveStart fs p) : r.span.start ≤ p := by
  refine Nat.le_of_not_lt fun hlt => ?_
  have hmoves := moveStart_lt_moveStop hfs.valid hfs.apart hlt hkept
  have hbefore := moveStop_le hfs.valid hfs.apart (h.uncut_start hin hr)
  change moveStart fs r.span.start ≤ _ at hle
  omega

theorem le_stop (hcut : ∀ f ∈ fs, ¬ f.Cuts p)
    (hle : moveStart fs p ≤ (moveSpan fs r.span).stop) : p ≤ r.span.stop := by
  refine Nat.le_of_not_lt fun hlt => ?_
  have hstop := h.kept_stop hin hr
  have hmoves := moveStart_lt_moveStop hfs.valid hfs.apart hlt hstop
  have hbefore := moveStop_le hfs.valid hfs.apart hcut
  have hstart := moveStart_le hfs.valid hfs.apart (h.ordered r hr) (h.uncut_start hin hr)
  have hend := moveStop_le hfs.valid hfs.apart (uncut_of_kept hstop)
  change moveStart fs p ≤ max (moveStart fs r.span.start) (moveStop fs r.span.stop) at hle
  omega

/-- What stands in a region that has moved. -/
theorem at_moveSpan (hlt : r.span.start < r.span.stop) :
    (apply fs t).text.at (moveSpan fs r.span) =
      refillTo t (fun f => decide (f.start < r.span.stop)) r.span.start r.span.stop
        (behind (sort fs) r.span.start) := by
  obtain ⟨hstart, hstop⟩ := h.boundary r hr
  have hcut := h.uncut_start hin hr
  have hend := uncut_of_kept (h.kept_stop hin hr)
  obtain ⟨hle, hpiece⟩ := between_apply hfs.valid hfs.apart (Nat.le_of_lt hlt) hstart hstop hcut
    (fun f hf hle => decide_eq_true (by have := (hfs.indents f hf).1.le; omega))
    (parts_start fun f hf => hend f ((perm_sort fs).subset hf))
  change moveStart fs r.span.start ≤ moveStop fs r.span.stop at hle
  change (apply fs t).text.slice (moveStart fs r.span.start)
    (max (moveStart fs r.span.start) (moveStop fs r.span.stop)) = _
  rw [Nat.max_eq_right hle, Text.slice_eq_between _
    (dropBytes_apply hfs.valid hfs.apart hstart hcut).1 hle]
  exact hpiece

/-- A region that is blank stays so. -/
theorem isBlank_moved (hblank : Text.isBlank (t.at r.span) = true) :
    Text.isBlank ((apply fs t).text.at (moveSpan fs r.span)) = true := by
  have hstart := (h.boundary r hr).1
  have hordered := h.ordered r hr
  have hcut := h.uncut_start hin hr
  have hend := uncut_of_kept (h.kept_stop hin hr)
  obtain ⟨hbehind, horder, hmem⟩ := hfs.behind_sort hcut
  rcases Nat.lt_or_eq_of_le hordered with hlt | heq
  · have hpiece : t.at r.span = t.between r.span.start r.span.stop :=
      Text.slice_eq_between t hstart hordered
    rw [hpiece] at hblank
    rw [h.at_moveSpan hfs hin hr hlt]
    exact isBlank_refillTo hbehind.indents hordered horder
      (parts_start fun f hf => hend f (hmem f hf).1) hblank
  · have hmoved := moveStop_le hfs.valid hfs.apart hcut
    change Text.isBlank ((apply fs t).text.slice (moveStart fs r.span.start)
      (max (moveStart fs r.span.start) (moveStop fs r.span.stop))) = true
    rw [← heq, Nat.max_eq_left hmoved, Text.slice_eq_between _
      (dropBytes_apply hfs.valid hfs.apart hstart hcut).1 (Nat.le_refl _),
      Text.between_eq_nil _ (Nat.le_refl _)]
    rfl

/-- The white space at the start of a region ends in front of the same character. -/
theorem exists_at_moveSpan_eq {w rest : Text} {c : Char} (hregion : t.at r.span = w ++ c :: rest)
    (hc : Text.isSpace c = false) :
    ∃ q rest', r.span.start + w.byteLength = q ∧ q < r.span.stop ∧ t.isBoundary q = true ∧
      t.between r.span.start q = w ∧ (∀ f ∈ fs, f.start ≤ q → f.stop ≤ q) ∧
      (apply fs t).text.at (moveSpan fs r.span) =
        refillTo t (fun f => decide (f.stop ≤ q)) r.span.start q
          (behind (sort fs) r.span.start) ++ c :: rest' := by
  obtain ⟨hlength, hq, hfront, hbehind⟩ := h.cut_at hr hregion
  have hpos := Char.utf8Size_pos c
  rw [Text.byteLength_cons] at hlength
  have hlt : r.span.start + w.byteLength < r.span.stop := by omega
  have hle : r.span.start ≤ r.span.start + w.byteLength := Nat.le_add_right _ _
  have hkept : ∀ f ∈ fs, f.start ≤ r.span.start + w.byteLength →
      f.stop ≤ r.span.start + w.byteLength :=
    kept_of_indents hfs.indents hq fun d hd => by
      rw [hbehind] at hd
      rw [← Option.some.inj hd]
      exact Text.isBlank_of_isSpace hc
  generalize r.span.start + w.byteLength = q at *
  obtain ⟨hsorted, horder, hmem⟩ := hfs.behind_sort (h.uncut_start hin hr)
  have hqcut : ∀ f ∈ behind (sort fs) r.span.start, ¬ f.Cuts q := fun f hf =>
    uncut_of_kept hkept f (hmem f hf).1
  have hend := uncut_of_kept (h.kept_stop hin hr)
  -- from the character on, no fix comes in front of it
  obtain ⟨d, tail, rest', hd, hrest'⟩ := exists_refillTo_eq_cons
    (fun f => decide (f.start < r.span.stop)) hlt (h.boundary r hr).2 hq
    (fun f hf => hsorted.valid f (mem_behind horder hqcut hf).1)
    (fun f hf => by
      obtain ⟨hf, -, hstop⟩ := mem_behind horder hqcut hf
      exact Nat.lt_of_not_le fun hle => absurd (hkept f (hmem f hf).1 hle) (by omega))
  have hdc : c = d := by
    rw [hbehind] at hd
    exact (List.cons.inj hd).1
  refine ⟨q, rest', rfl, hlt, hq, hfront, hkept, ?_⟩
  rw [h.at_moveSpan hfs hin hr (Nat.lt_of_le_of_lt hle hlt), hdc, ← hrest']
  refine refillTo_append hle (Nat.le_of_lt hlt) horder (parts_stop hqcut)
    (fun f hf hstop => decide_eq_true ?_) (parts_start fun f hf => hend f (hmem f hf).1)
  have hordered := (hsorted.indents f hf).1.le
  have hstop := of_decide_eq_true hstop
  omega

/-- How far a region is indented that has moved: as far as before, unless a fix has
indented its first line, which is not the line of the tag in front of it. -/
theorem firstIndent_moved {w : Text} (hmargin : w = (t.at r.span).takeWhile Text.isSpace) :
    firstIndent ((apply fs t).text.at (moveSpan fs r.span)) = firstIndent (t.at r.span) ∨
      w ≠ t.at r.span ∧ '\n' ∈ w ∧ ∃ f ∈ fs, r.span.start < f.start ∧
        f.start + w.lastLine.byteLength = r.span.start + w.byteLength ∧
        f.stop ≤ r.span.start + w.byteLength ∧ r.span.start + w.byteLength < r.span.stop ∧
        firstIndent ((apply fs t).text.at (moveSpan fs r.span)) = f.content.length := by
  have hwblank : Text.isBlank w = true := by
    rw [hmargin]
    exact List.all_takeWhile
  have hsplit := List.takeWhile_append_dropWhile (p := Text.isSpace) (l := t.at r.span)
  rw [← hmargin] at hsplit
  cases hrest : (t.at r.span).dropWhile Text.isSpace with
  | nil =>
    rw [hrest, List.append_nil] at hsplit
    rw [hsplit] at hwblank
    rw [firstIndent_of_isBlank hwblank, firstIndent_of_isBlank (h.isBlank_moved hfs hin hr hwblank)]
    exact Or.inl rfl
  | cons c rest =>
    have hc : Text.isSpace c = false := by
      have hhead := List.head?_dropWhile_not Text.isSpace (t.at r.span)
      rw [hrest] at hhead
      exact hhead
    rw [hrest] at hsplit
    obtain ⟨q, rest', hq, hlt, hboundary, hfront, hkept, hmoved⟩ :=
      h.exists_at_moveSpan_eq hfs hin hr hsplit.symm hc
    have hstart := (h.boundary r hr).1
    have hle : r.span.start ≤ q := by omega
    obtain ⟨hsorted, horder, hmem⟩ := hfs.behind_sort (h.uncut_start hin hr)
    have hblank' := isBlank_refillTo hsorted.indents hle horder
      (parts_stop fun f hf => uncut_of_kept hkept f (hmem f hf).1)
      (hfront ▸ hwblank)
    rw [hmoved, firstIndent_append hblank' hc, ← hsplit, firstIndent_append hwblank hc]
    have hline := hsorted.lastLine_refillTo (u := []) hle hstart horder fun _ _ _ =>
      Text.isLineStart_nil
    rw [List.nil_append, List.nil_append, hfront] at hline
    rcases hline with ⟨f, hf, hstop, hfree, hline⟩ | ⟨-, hline⟩
    · have hindents := hsorted.indents f hf
      have hne : r.span.start ≠ f.start := fun heq =>
        h.opened r hr (heq ▸ hindents.1.isLineStart)
      have hbelow : r.span.start < f.start := Nat.lt_of_le_of_ne (hmem f hf).2.1 hne
      have hlast := hindents.lastLine_between (Nat.le_of_lt hbelow) hstop hfree
      have hlength := Text.byteLength_between (Nat.le_trans hindents.1.le hstop)
        hindents.1.boundary.1 hboundary
      rw [hfront] at hlast
      have hordered := hindents.1.le
      refine Or.inr ⟨by simp, hfront ▸ hindents.newline_mem_between hstart hbelow hstop, f,
        (hmem f hf).1, hbelow, ?_, by omega, by omega, ?_⟩
      · rw [hlast, hlength]
        omega
      · rw [hline]
        exact hindents.length_takeWhile_content hstop
    · rw [hline]
      exact Or.inl rfl

end Embedded

end Region

namespace Document

variable {d : Document} {regions : List Region} {r : Region} {p : Nat}

/-- How far the statements at a place are indented that one region holds. -/
theorem baseIndent_eq (hd : d.regions = some regions) (hr : r ∈ regions)
    (hp : r.span.start ≤ p ∧ p ≤ r.span.stop)
    (hunique : ∀ s ∈ regions, s.span.start ≤ p → p ≤ s.span.stop → s = r) :
    d.baseIndent p = r.baseIndent := by
  rw [baseIndent, hd]
  simp only
  split
  · rename_i s hs
    have hholds := List.find?_some hs
    simp only [Bool.and_eq_true, decide_eq_true_eq] at hholds
    rw [hunique s (List.mem_of_find?_eq_some hs) hholds.1 hholds.2]
  · rename_i hnone
    have hnot := List.find?_eq_none.1 hnone r hr
    simp [hp] at hnot

/-! ## Documents that move -/

/-- Whether a document is another one in which some fixes are applied, with the regions moved
along. -/
structure IsMoved (fs : List Fix) (d d' : Document) : Prop where
  /-- The new text. -/
  text : d'.text = (apply fs d.text).text
  /-- The regions in the new text. -/
  regions : d'.regions = d.regions.map (List.map (Region.moved (moveSpan fs) d'.text))

section

variable {parser parser' : Parser} {file : Path} {text : Text} {fs : List Fix}

/-- When markup moves, its stylesheets do. -/
theorem isMoved_ofFile (hmarkup : file.isMarkup = true →
      (parser' .html (apply fs text).text none).root =
        (parser .html text none).root.mapSpan (moveSpan fs)) :
    IsMoved fs (ofFile parser file text .style)
      (ofFile parser' file (apply fs text).text .style) where
  text := rfl
  regions := by
    by_cases hfile : file.isMarkup = true
    · simp only [ofFile, if_pos hfile, hmarkup hfile, Region.ofMarkup_mapSpan (t := text),
        Option.map_some]
    · simp only [ofFile, if_neg hfile, Option.map_none]

/-- How far the regions of a document are indented. -/
theorem baseIndent_of_mem_regions {language : Language} :
    ∀ regions ∈ (ofFile parser file text language).regions, ∀ r ∈ regions,
      r.baseIndent = Region.firstIndent (text.at r.span) := by
  intro regions hregions r hr
  rw [ofFile] at hregions
  split at hregions
  · obtain rfl := Option.some.inj hregions
    exact Region.baseIndent_of_mem_ofMarkup hr
  · cases hregions

end

end Document
end WebLint
