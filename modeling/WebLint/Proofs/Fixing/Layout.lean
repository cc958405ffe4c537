import Mathlib.Data.List.Forall2
import WebLint.Proofs.Fixing.Selection
import WebLint.Proofs.Text.Lines

/-!
# Fixes of the layout

Two kinds of fixes change nothing but the layout of a text: one gives a line
other blanks to start with, the other deletes a semicolon.  Applied together they
leave every line in its place.

What is proved here:

* `Indents.apart`, `Indents.apart_drops` — fixes of the indentation are apart
  from each other when they are about different lines, and from the deletion of
  a semicolon always;
* `relaid_refill` — what such fixes make of a text, character by character;
* `forall₂_isRelaid_apply` — and line by line: each line keeps what it holds, but
  for its indentation and some semicolons.
-/

namespace WebLint

/-! ## Two kinds of fixes -/

namespace Fix

/-- Whether a fix puts spaces in the place of all the blanks a line starts
with. -/
def Indents (t : Text) (f : Fix) : Prop :=
  t.IsLead f.start f.stop ∧ ∃ width, f.content = Indent.spaces width

/-- Whether a fix deletes one semicolon. -/
def Drops (t : Text) (f : Fix) : Prop :=
  (∃ u v, t = u ++ ';' :: v ∧ u.byteLength = f.start) ∧ f.stop = f.start + 1 ∧ f.content = []

variable {t : Text} {f g : Fix}

theorem Indents.isValid (h : f.Indents t) : Fixing.isValid t f = true :=
  Fixing.isValid_iff.2 ⟨h.1.le, h.1.boundary⟩

theorem byteLength_semicolon (v : Text) : Text.byteLength (';' :: v) = 1 + v.byteLength := rfl

theorem Drops.isValid (h : f.Drops t) : Fixing.isValid t f = true := by
  obtain ⟨⟨u, v, rfl, hu⟩, hstop, -⟩ := h
  refine Fixing.isValid_iff.2 ⟨by omega, Text.isBoundary_iff.2 ⟨u, _, rfl, hu⟩,
    Text.isBoundary_iff.2 ⟨u ++ [';'], v, by simp, ?_⟩⟩
  rw [Text.byteLength_append, byteLength_semicolon, Text.byteLength_nil]
  omega

/-- A line is indented apart from another line. -/
theorem Indents.apart (hf : f.Indents t) (hg : g.Indents t) (h : f.start ≠ g.start) :
    f.Apart g := by
  rcases Nat.lt_or_gt_of_ne h with hlt | hgt
  · exact Or.inl (Nat.le_of_lt (hf.1.stop_lt hg.1 hlt))
  · exact Or.inr (Nat.le_of_lt (hg.1.stop_lt hf.1 hgt))

/-- Different lines are in different rows. -/
theorem Indents.row_ne (hf : f.Indents t) (hg : g.Indents t) (h : f.start ≠ g.start) :
    t.row f.start ≠ t.row g.start := by
  rcases Nat.lt_or_gt_of_ne h with hlt | hgt
  · exact Nat.ne_of_lt (hf.1.row_lt hg.1 hlt)
  · exact Nat.ne_of_gt (hg.1.row_lt hf.1 hgt)

/-- A semicolon is no blank. -/
theorem Indents.apart_drops (hf : f.Indents t) (hg : g.Drops t) : f.Apart g := by
  obtain ⟨⟨u, v, ht, hu⟩, hstop, -⟩ := hg
  have hboundary : t.isBoundary g.start = true := Text.isBoundary_iff.2 ⟨u, _, ht, hu⟩
  have hsemicolon : t.dropBytes g.start = ';' :: v := by rw [ht, ← hu, Text.dropBytes_append]
  by_cases hbehind : f.stop ≤ g.start
  · exact Or.inl hbehind
  · refine Or.inr (Nat.le_of_not_lt fun hle => ?_)
    obtain ⟨c, rest, hrest, hblank⟩ := hf.1.isBlank_head hboundary (by omega) (by omega)
    rw [hsemicolon] at hrest
    rw [← (List.cons.inj hrest).1] at hblank
    exact absurd hblank (by decide)

theorem Drops.not_indents (h : f.Drops t) : ¬ f.Indents t := by
  intro hindents
  have hapart := hindents.apart_drops h
  have hstop := h.2.1
  unfold Apart at hapart
  omega

/-- Whether two fixes do not meet: they replace no common byte, and do not both indent
the same line. -/
def Clear (t : Text) (f g : Fix) : Prop :=
  f.Apart g ∧ (f.Indents t → g.Indents t → f.start ≠ g.start)

theorem Clear.symm (h : Clear t f g) : Clear t g f :=
  ⟨h.1.symm, fun hg hf => (h.2 hf hg).symm⟩

end Fix

/-! ## Lines in another layout -/

namespace Text

/-- Whether a text is another one without some of its semicolons. -/
inductive DropsSemicolons : Text → Text → Prop
  | nil : DropsSemicolons [] []
  | keep (c : Char) {t s : Text} : DropsSemicolons t s → DropsSemicolons (c :: t) (c :: s)
  | drop {t s : Text} : DropsSemicolons t s → DropsSemicolons (';' :: t) s

/-- Whether a line is another one in a new layout: its indentation is the old one,
or spaces, and what stands behind it is the same but for some semicolons. -/
def IsRelaid (line line' : Text) : Prop :=
  ∃ indent rest, line' = indent ++ rest ∧
    (indent = Indent.ofLine line ∨ ∃ width, indent = Indent.spaces width) ∧
    DropsSemicolons (line.dropWhile Indent.isBlank) rest

/-- Whether a text is another one in a new layout.  The flag says whether both
are at the start of a line, where alone the indentation may change. -/
inductive Relaid : Bool → Text → Text → Prop
  | done (first : Bool) : Relaid first [] []
  | newline (first : Bool) {t s : Text} : Relaid true t s → Relaid first ('\n' :: t) ('\n' :: s)
  | keep (first : Bool) {c : Char} {t s : Text} : c ≠ '\n' → Relaid false t s →
      Relaid first (c :: t) (c :: s)
  | drop (first : Bool) {t s : Text} : Relaid false t s → Relaid first (';' :: t) s
  | indent (width : Nat) {blanks t s : Text} : blanks.all Indent.isBlank = true →
      (∀ c ∈ t.head?, Indent.isBlank c = false) → Relaid false t s →
      Relaid true (blanks ++ t) (Indent.spaces width ++ s)

/-- Leaving out semicolons keeps the indentation of a line. -/
theorem DropsSemicolons.exists_ofLine_append {line line' : Text} (h : DropsSemicolons line line') :
    ∃ rest, line' = Indent.ofLine line ++ rest ∧
      DropsSemicolons (line.dropWhile Indent.isBlank) rest := by
  induction h with
  | nil => exact ⟨[], rfl, .nil⟩
  | @keep c line line' h ih =>
    by_cases hc : Indent.isBlank c = true
    · obtain ⟨rest, rfl, hrest⟩ := ih
      refine ⟨rest, ?_, ?_⟩
      · rw [Indent.ofLine, Indent.ofLine, List.takeWhile_cons_of_pos hc, List.cons_append]
      · rwa [List.dropWhile_cons_of_pos hc]
    · refine ⟨c :: line', ?_, ?_⟩
      · rw [Indent.ofLine, List.takeWhile_cons_of_neg hc, List.nil_append]
      · rw [List.dropWhile_cons_of_neg hc]
        exact .keep c h
  | drop h => exact ⟨_, rfl, .drop h⟩

theorem DropsSemicolons.isRelaid {line line' : Text} (h : DropsSemicolons line line') :
    IsRelaid line line' := by
  obtain ⟨rest, hline, hrest⟩ := h.exists_ofLine_append
  exact ⟨Indent.ofLine line, rest, hline, Or.inl rfl, hrest⟩

/-- Blanks in front of something that is no blank are an indentation. -/
theorem isRelaid_append {blanks rest rest' : Text} (width : Nat)
    (hblanks : blanks.all Indent.isBlank = true)
    (hrest : ∀ c ∈ rest.head?, Indent.isBlank c = false)
    (h : DropsSemicolons rest rest') :
    IsRelaid (blanks ++ rest) (Indent.spaces width ++ rest') := by
  refine ⟨Indent.spaces width, rest', rfl, Or.inr ⟨width, rfl⟩, ?_⟩
  rwa [(ofLine_append hblanks hrest).2]

/-! ## Line by line -/

/-- What stands in front of the first line feed. -/
theorem lines_append_of_not_mem {u : Text} (hu : '\n' ∉ u) {t l : Text} {ls : List Text}
    (h : t.lines = l :: ls) : (u ++ t).lines = (u ++ l) :: ls := by
  induction u with
  | nil => exact h
  | cons c u ih =>
    obtain ⟨hc, hu⟩ := not_or.1 (fun h => hu (List.mem_cons.2 h))
    rw [List.cons_append, lines, if_neg (Ne.symm hc), ih hu]
    rfl

/-- The first line starts as the text does. -/
theorem mem_head?_of_lines {t l : Text} {ls : List Text} (h : t.lines = l :: ls) {c : Char}
    (hc : c ∈ l.head?) : c ∈ t.head? := by
  have ht : t = join (l :: ls) := by rw [← h, join_lines]
  cases l with
  | nil => cases hc
  | cons d l =>
    cases ls with
    | nil => rwa [ht, join_singleton]
    | cons k ls => rwa [ht, join_cons_of_ne_nil (List.cons_ne_nil k ls)]

theorem not_mem_spaces (width : Nat) : '\n' ∉ Indent.spaces width := by
  intro h
  exact absurd (List.eq_of_mem_replicate h) (by decide)

/-- In a new layout a text has as many lines, each in a new layout too; only at the
start of a line the indentation may be another one. -/
theorem Relaid.lines {first : Bool} {t s : Text} (h : Relaid first t s) :
    ∃ l ls l' ls', t.lines = l :: ls ∧ s.lines = l' :: ls' ∧
      (if first = true then IsRelaid l l' else DropsSemicolons l l') ∧
      List.Forall₂ IsRelaid ls ls' := by
  -- away from the start of a line, and so also there, only semicolons are left out
  have hweaken : ∀ {first : Bool} {l l' : Text}, DropsSemicolons l l' →
      if first = true then IsRelaid l l' else DropsSemicolons l l' := by
    intro first l l' hl
    split
    · exact hl.isRelaid
    · exact hl
  induction h with
  | done first => exact ⟨[], [], [], [], rfl, rfl, hweaken .nil, .nil⟩
  | newline first _ ih =>
    obtain ⟨l, ls, l', ls', ht, hs, hl, hls⟩ := ih
    refine ⟨[], l :: ls, [], l' :: ls', ?_, ?_, hweaken .nil, .cons (by simpa using hl) hls⟩
    · rw [Text.lines, if_pos rfl, ht]
    · rw [Text.lines, if_pos rfl, hs]
  | @keep first c t s hc _ ih =>
    obtain ⟨l, ls, l', ls', ht, hs, hl, hls⟩ := ih
    have hfree : '\n' ∉ [c] := by simpa using Ne.symm hc
    exact ⟨c :: l, ls, c :: l', ls', lines_append_of_not_mem hfree ht,
      lines_append_of_not_mem hfree hs, hweaken (.keep c (by simpa using hl)), hls⟩
  | drop first _ ih =>
    obtain ⟨l, ls, l', ls', ht, hs, hl, hls⟩ := ih
    have hfree : '\n' ∉ [';'] := by decide
    exact ⟨';' :: l, ls, l', ls', lines_append_of_not_mem hfree ht, hs,
      hweaken (.drop (by simpa using hl)), hls⟩
  | indent width hblanks hhead _ ih =>
    obtain ⟨l, ls, l', ls', ht, hs, hl, hls⟩ := ih
    refine ⟨_, ls, _, ls', lines_append_of_not_mem (not_mem_of_isBlank hblanks) ht,
      lines_append_of_not_mem (not_mem_spaces width) hs, ?_, hls⟩
    rw [if_pos rfl]
    exact isRelaid_append width hblanks (fun c hc => hhead c (mem_head?_of_lines ht hc))
      (by simpa using hl)

theorem Relaid.forall₂_isRelaid {t s : Text} (h : Relaid true t s) :
    List.Forall₂ IsRelaid t.lines s.lines := by
  obtain ⟨l, ls, l', ls', ht, hs, hl, hls⟩ := h.lines
  rw [ht, hs]
  exact .cons (by simpa using hl) hls

/-! ## Character by character -/

/-- Whether a line starts behind a piece of text, when the flag says so of the place
in front of it. -/
def startsLine (first : Bool) (piece : Text) : Bool :=
  match piece.getLast? with
  | none => first
  | some c => c == '\n'

/-- What is kept is in a new layout together with what follows it. -/
theorem Relaid.append {piece t s : Text} {first : Bool}
    (h : Relaid (startsLine first piece) t s) : Relaid first (piece ++ t) (piece ++ s) := by
  induction piece generalizing first with
  | nil => exact h
  | cons c piece ih =>
    have hrest : Relaid (startsLine (c == '\n') piece) t s := by
      cases piece with
      | nil => exact h
      | cons d piece => exact h
    by_cases hc : c = '\n'
    · subst hc
      exact .newline first (ih hrest)
    · rw [show (c == '\n') = false by simpa using hc] at hrest
      exact .keep first hc (ih hrest)

theorem Relaid.refl (t : Text) (first : Bool) : Relaid first t t := by
  simpa using Relaid.append (t := []) (s := []) (.done (startsLine first t))

/-- Two texts that end in the same piece both end at the start of a line, or both do
not. -/
theorem startsLine_eq_true {u piece : Text} {first : Bool} (h : IsLineStart (u ++ piece))
    (hfirst : piece = [] → first = true) : startsLine first piece = true := by
  unfold startsLine
  cases hlast : piece.getLast? with
  | none => exact hfirst (List.getLast?_eq_none_iff.1 hlast)
  | some c => simpa using h c (by rw [List.getLast?_append, hlast]; rfl)

end Text

namespace Fixing

open Text

variable {t : Text} {fs : List Fix}

/-- From an offset on, fixes of the layout that follow each other give the text a new
layout.  Where no line starts none of them may be about the indentation. -/
theorem relaid_refill {cursor : Nat} {first : Bool} (hcursor : t.isBoundary cursor = true)
    (hlayout : ∀ f ∈ fs, f.Indents t ∨ f.Drops t) (hbehind : ∀ f ∈ fs, cursor ≤ f.start)
    (horder : fs.Pairwise fun f g => f.stop ≤ g.start)
    (hlines : fs.Pairwise fun f g => f.Indents t → g.Indents t → f.start ≠ g.start)
    (hfirst : first = true ∨ ∀ f ∈ fs, f.Indents t → cursor < f.start) :
    Relaid first (t.dropBytes cursor) (refill t cursor (fs.map Fix.filling)) := by
  induction fs generalizing cursor first with
  | nil => exact .refl _ first
  | cons f fs ih =>
    obtain ⟨hf, hrest⟩ := List.forall_mem_cons.1 hlayout
    obtain ⟨hnext, horder⟩ := List.pairwise_cons.1 horder
    obtain ⟨hother, hlines⟩ := List.pairwise_cons.1 hlines
    have hle : cursor ≤ f.start := hbehind f List.mem_cons_self
    rw [List.map_cons, Fix.filling, refill, ← between_append_dropBytes t hle, List.append_assoc]
    refine Relaid.append ?_
    change Relaid _ _ (f.content ++ refill t f.stop (fs.map Fix.filling))
    rcases hf with hf | hf
    · obtain ⟨blanks, htail, hblanks⟩ := hf.1.exists_append
      obtain ⟨width, hcontent⟩ := hf.2
      have hflag : startsLine first (t.between cursor f.start) = true := by
        refine startsLine_eq_true (u := t.takeBytes cursor) ?_ fun hnil => ?_
        · rw [takeBytes_append_between t hle]
          exact hf.1.isLineStart
        · have hlength := byteLength_between hle hcursor hf.1.boundary.1
          rw [hnil, byteLength_nil] at hlength
          refine hfirst.resolve_right fun h => ?_
          have hlt := h f List.mem_cons_self hf
          omega
      rw [hflag, htail, hcontent]
      refine .indent width hblanks hf.1.isBlank_head_stop
        (ih hf.1.boundary.2 hrest hnext horder hlines (Or.inr fun g hg hgindents => ?_))
      have hbefore : f.start ≤ g.start := Nat.le_trans hf.1.le (hnext g hg)
      exact hf.1.stop_lt hgindents.1 (Nat.lt_of_le_of_ne hbefore (hother g hg hf hgindents))
    · obtain ⟨⟨u, v, ht, hstart⟩, hstop, hcontent⟩ := hf
      have hcut : t = (u ++ [';']) ++ v := by rw [ht]; simp
      have hlength : byteLength (u ++ [';']) = f.stop := by
        rw [byteLength_append, Fix.byteLength_semicolon, byteLength_nil]
        omega
      have htail : t.dropBytes f.start = ';' :: t.dropBytes f.stop := by
        rw [← hlength, hcut, dropBytes_append, List.append_assoc, ← hstart, dropBytes_append]
        rfl
      have hboundary : t.isBoundary f.stop = true := isBoundary_iff.2 ⟨_, v, hcut, hlength⟩
      rw [hcontent, htail]
      refine .drop _ (ih hboundary hrest hnext horder hlines (Or.inr fun g hg hgindents => ?_))
      -- no line starts behind a semicolon
      refine Nat.lt_of_le_of_ne (hnext g hg) fun heq => ?_
      have hline := hgindents.1.isLineStart
      rw [← heq, hcut, ← hlength, takeBytes_append] at hline
      exact absurd (hline ';' (by simp)) (by decide)

/-- **Fixes of the layout keep every line.**  Applied together, fixes that are apart,
each about the indentation of another line or deleting a semicolon, give each line of a
text a new layout. -/
theorem forall₂_isRelaid_apply (hlayout : ∀ f ∈ fs, f.Indents t ∨ f.Drops t)
    (hclear : fs.Pairwise (Fix.Clear t)) :
    List.Forall₂ IsRelaid t.lines (apply fs t).text.lines := by
  have hapart : fs.Pairwise Fix.Apart := hclear.imp And.left
  have hvalid : ∀ f ∈ fs, isValid t f = true := fun f hf =>
    (hlayout f hf).elim Fix.Indents.isValid Fix.Drops.isValid
  have hsorted : (sort fs).Pairwise fun f g => f.Indents t → g.Indents t → f.start ≠ g.start :=
    (hclear.imp And.right).perm (perm_sort fs).symm fun hfg hg hf => (hfg hf hg).symm
  have hrefill := relaid_refill (Text.isBoundary_zero t)
    (fun f hf => hlayout f ((perm_sort fs).subset hf)) (fun f _ => Nat.zero_le f.start)
    (pairwise_sort_of_apart (fun f hf => (isValid_iff.1 (hvalid f hf)).1) hapart) hsorted
    (Or.inl rfl)
  rw [apply_of_apart hvalid hapart]
  rw [dropBytes_zero] at hrefill
  exact hrefill.forall₂_isRelaid

end Fixing
end WebLint
