import WebLint.Proofs.Fixing.Layout
import WebLint.Proofs.Fixing.Moves

/-!
# Where things stand in lines that are indented anew

Fixes that each give another line another indentation replace blanks at the starts of
lines alone.  What is no blank is kept, with all that stands in front of it in its line
but for the indentation.

What is proved here:

* `kept_of_indents` — no fix reaches over something that is no blank;
* `Reindents.lastLine_refillTo` — the new line in front of an offset: either a fix has
  put its spaces there, or it is the old one;
* `Reindents.moveStart_eq_add` — places of one line move together, unless it starts at the
  first of them.
-/

namespace WebLint

namespace Fix.Indents

variable {t : Text} {f : Fix} {a p : Nat}

/-- A line starts where it is indented. -/
theorem isLineStart_between (hf : f.Indents t) (hstart : a ≤ f.start) :
    Text.IsLineStart (t.between a f.start) := by
  have hline := hf.1.isLineStart
  rw [← Text.takeBytes_append_between t hstart] at hline
  exact Text.isLineStart_of_append hline

/-- A line feed in front of a line that is indented. -/
theorem newline_mem_between (hf : f.Indents t) (ha : t.isBoundary a = true) (hlt : a < f.start)
    (hle : f.stop ≤ p) : '\n' ∈ t.between a p := by
  have hstart := Nat.le_of_lt hlt
  rw [← Text.between_append_between t hstart (Nat.le_trans hf.1.le hle)]
  refine List.mem_append_left _ ((hf.isLineStart_between hstart).newline_mem fun hnil => ?_)
  have hlength := Text.byteLength_between hstart ha hf.1.boundary.1
  rw [hnil, Text.byteLength_nil] at hlength
  omega

/-- The blanks a line starts with do not end it. -/
theorem newline_mem_iff (hf : f.Indents t) (hle : f.stop ≤ p) :
    '\n' ∈ t.between f.start p ↔ '\n' ∈ t.between f.stop p := by
  rw [← Text.between_append_between t hf.1.le hle, List.mem_append,
    or_iff_right (Text.not_mem_of_isBlank hf.1.all_isBlank)]

/-- The line in front of a place in a line that is indented. -/
theorem lastLine_between (hf : f.Indents t) (hstart : a ≤ f.start) (hle : f.stop ≤ p)
    (hfree : '\n' ∉ t.between f.start p) : (t.between a p).lastLine = t.between f.start p := by
  rw [← Text.between_append_between t hstart (Nat.le_trans hf.1.le hle),
    Text.lastLine_append _ hfree, Text.lastLine_of_isLineStart (hf.isLineStart_between hstart),
    List.nil_append]

/-- What stands behind its indentation starts with no further space. -/
theorem length_takeWhile_content (hf : f.Indents t) (hle : f.stop ≤ p) :
    ((f.content ++ t.between f.stop p).takeWhile (· == ' ')).length = f.content.length := by
  obtain ⟨hlead, width, hcontent⟩ := hf
  rw [hcontent]
  refine congrArg List.length (Text.takeWhile_spaces_append width fun d hd => ?_)
  refine hlead.isBlank_head_stop d ?_
  rw [← Text.between_append_dropBytes t hle, List.head?_append, Option.mem_def.1 hd]
  rfl

/-- No line is indented between places of one line, unless it starts at the first of them. -/
theorem start_lt (hf : f.Indents t) (hopened : ¬ Text.IsLineStart (t.takeBytes a))
    (hfree : '\n' ∉ t.between a p) (hle : f.stop ≤ p) : f.start < a := by
  refine Nat.lt_of_not_le fun hstart => hopened ?_
  have hline := hf.1.isLineStart
  have hpiece := Text.between_append_between t hstart (Nat.le_trans hf.1.le hle)
  have hnil : t.between a f.start = [] := by
    refine Decidable.byContradiction fun hne => hfree ?_
    rw [← hpiece]
    exact List.mem_append_left _ ((hf.isLineStart_between hstart).newline_mem hne)
  rwa [← Text.takeBytes_append_between t hstart, hnil, List.append_nil] at hline

end Fix.Indents

namespace Fixing

section

variable {t : Text} {fs : List Fix} {cursor p : Nat}

/-- What is no blank is kept. -/
theorem kept_of_indents (hindents : ∀ f ∈ fs, f.Indents t) (hp : t.isBoundary p = true)
    (hunblank : ∀ c ∈ (t.dropBytes p).head?, Indent.isBlank c = false) :
    ∀ f ∈ fs, f.start ≤ p → f.stop ≤ p := by
  intro f hf hle
  refine Nat.le_of_not_lt fun hlt => ?_
  obtain ⟨c, rest, hrest, hblank⟩ := (hindents f hf).1.isBlank_head hp hle hlt
  rw [hunblank c (by rw [hrest]; rfl)] at hblank
  cases hblank

/-- What is blank stays so. -/
theorem isBlank_refillTo (hindents : ∀ f ∈ fs, f.Indents t) {passed : Fix → Bool}
    (hcursor : cursor ≤ p) (horder : Region.inOrder cursor (fs.map Fix.span) = true)
    (hparts : Parts passed p fs) (hblank : Text.isBlank (t.between cursor p) = true) :
    Text.isBlank (refillTo t passed cursor p fs) = true := by
  refine List.all_eq_true.2 fun c hc => ?_
  rcases mem_refillTo hcursor horder hparts hc with hc | ⟨f, hf, hc⟩
  · exact List.all_eq_true.1 hblank c hc
  · obtain ⟨-, width, hcontent⟩ := hindents f hf
    rw [hcontent] at hc
    rw [List.eq_of_mem_replicate hc]
    rfl

end

/-- Whether fixes give lines another indentation, each another line. -/
structure Reindents (t : Text) (fs : List Fix) : Prop where
  /-- Each fix indents a line. -/
  indents : ∀ f ∈ fs, f.Indents t
  /-- No two fixes indent the same line. -/
  distinct : fs.Pairwise fun f g => f.start ≠ g.start

namespace Reindents

variable {t : Text} {fs : List Fix} {cursor p q : Nat}

theorem valid (h : Reindents t fs) : ∀ f ∈ fs, isValid t f = true := fun f hf =>
  (h.indents f hf).isValid

theorem apart (h : Reindents t fs) : fs.Pairwise Fix.Apart :=
  h.distinct.imp_of_mem fun hf hg hfg => (h.indents _ hf).apart (h.indents _ hg) hfg

theorem sublist {gs : List Fix} (h : Reindents t fs) (hgs : gs.Sublist fs) : Reindents t gs where
  indents f hf := h.indents f (hgs.subset hf)
  distinct := h.distinct.sublist hgs

theorem perm {gs : List Fix} (h : Reindents t fs) (hperm : fs.Perm gs) : Reindents t gs where
  indents f hf := h.indents f (hperm.mem_iff.2 hf)
  distinct := h.distinct.perm hperm fun hfg => hfg.symm

/-- The other fixes, in order, come behind the first of them. -/
theorem stop_lt_start {f : Fix} (h : Reindents t (f :: fs))
    (horder : Region.inOrder f.stop (fs.map Fix.span) = true) :
    ∀ g ∈ fs, f.stop < g.start := by
  intro g hg
  have hle : f.stop ≤ g.start := Region.le_start_of_inOrder horder (List.mem_map_of_mem hg)
  have hf := (h.indents f List.mem_cons_self).1
  have hne := (List.pairwise_cons.1 h.distinct).1 g hg
  exact hf.stop_lt (h.indents g (List.mem_cons_of_mem f hg)).1
    (Nat.lt_of_le_of_ne (Nat.le_trans hf.le hle) hne)

/-- The fixes behind an offset that is not cut, in order. -/
theorem behind_sort (h : Reindents t fs) (hcut : ∀ f ∈ fs, ¬ f.Cuts p) :
    Reindents t (behind (sort fs) p) ∧
      Region.inOrder p ((behind (sort fs) p).map Fix.span) = true ∧
      ∀ f ∈ behind (sort fs) p, f ∈ fs ∧ p ≤ f.start ∧ p < f.stop := by
  have horder := inOrder_sort h.valid h.apart
  have hsorted : ∀ f ∈ sort fs, ¬ f.Cuts p := fun f hf => hcut f ((perm_sort fs).subset hf)
  refine ⟨(h.perm (perm_sort fs).symm).sublist (List.dropWhile_sublist _),
    inOrder_behind horder hsorted, fun f hf => ?_⟩
  obtain ⟨hmem, hplace⟩ := mem_behind horder hsorted hf
  exact ⟨(perm_sort fs).subset hmem, hplace⟩

/-- The new line in front of an offset: either a fix has put its spaces at the start of
this line, or the line is as it was. -/
theorem lastLine_refillTo (h : Reindents t fs) {u : Text} (hcursor : cursor ≤ p)
    (hboundary : t.isBoundary cursor = true)
    (horder : Region.inOrder cursor (fs.map Fix.span) = true)
    (hu : ∀ f ∈ fs, f.start = cursor → Text.IsLineStart u) :
    (∃ f ∈ fs, f.stop ≤ p ∧ '\n' ∉ t.between f.start p ∧
      (u ++ refillTo t (fun f => decide (f.stop ≤ p)) cursor p fs).lastLine =
        f.content ++ t.between f.stop p) ∨
    ((∀ f ∈ fs, f.stop ≤ p → '\n' ∈ t.between f.start p) ∧
      (u ++ refillTo t (fun f => decide (f.stop ≤ p)) cursor p fs).lastLine =
        (u ++ t.between cursor p).lastLine) := by
  -- `u` is the new text in front of the cursor: it grows by what the first fix leaves there
  induction fs generalizing cursor u with
  | nil => exact Or.inr ⟨fun f hf => absurd hf List.not_mem_nil, rfl⟩
  | cons f fs ih =>
    obtain ⟨hstart, -, hrest⟩ := Region.inOrder_cons.1 horder
    obtain ⟨hf, hfs⟩ := List.forall_mem_cons.1 h.indents
    change cursor ≤ f.start at hstart
    have hbehind := h.stop_lt_start hrest
    by_cases hpassed : f.stop ≤ p
    · rw [refillTo, if_pos (decide_eq_true hpassed), ← List.append_assoc, ← List.append_assoc]
      rcases ih (h.sublist (List.sublist_cons_self f fs))
        (u := u ++ t.between cursor f.start ++ f.content) hpassed hf.1.boundary.2 hrest
        (fun g hg heq => absurd heq (Nat.ne_of_gt (hbehind g hg)))
        with ⟨g, hg, hgstop, hgline, hline⟩ | ⟨hlater, hline⟩
      · exact Or.inl ⟨g, List.mem_cons_of_mem f hg, hgstop, hgline, hline⟩
      rw [hline]
      by_cases hnewline : '\n' ∈ t.between f.start p
      · -- the line of `f` ends in front of the offset
        have hends := (hf.newline_mem_iff hpassed).1 hnewline
        refine Or.inr ⟨List.forall_mem_cons.2 ⟨fun _ => hnewline, hlater⟩, ?_⟩
        rw [Text.lastLine_append_of_mem _ hends,
          ← Text.between_append_between t (Nat.le_trans hstart hf.1.le) hpassed,
          ← List.append_assoc, Text.lastLine_append_of_mem _ hends]
      · refine Or.inl ⟨f, List.mem_cons_self, hpassed, hnewline, ?_⟩
        have hfree : '\n' ∉ f.content ++ t.between f.stop p := by
          obtain ⟨width, hcontent⟩ := hf.2
          rw [List.mem_append, hcontent]
          exact fun hor => hor.elim (Text.not_mem_spaces width) fun hin =>
            hnewline ((hf.newline_mem_iff hpassed).2 hin)
        have hfirst : Text.IsLineStart (u ++ t.between cursor f.start) := by
          refine Text.isLineStart_append (fun hnil => hu f List.mem_cons_self ?_)
            (hf.isLineStart_between hstart)
          have hlength := Text.byteLength_between hstart hboundary hf.1.boundary.1
          rw [hnil, Text.byteLength_nil] at hlength
          omega
        rw [List.append_assoc _ f.content, Text.lastLine_append _ hfree,
          Text.lastLine_of_isLineStart hfirst, List.nil_append]
    · have hlater : ∀ g ∈ f :: fs, ¬ g.stop ≤ p := by
        refine List.forall_mem_cons.2 ⟨hpassed, fun g hg => ?_⟩
        have hlt := hbehind g hg
        have hle := (hfs g hg).1.le
        omega
      rw [refillTo_of_not_passed fun g hg => decide_eq_false (hlater g hg)]
      exact Or.inr ⟨fun g hg hle => absurd hle (hlater g hg), rfl⟩

/-- The new line in front of the place of an offset. -/
theorem lastLine_apply (h : Reindents t fs) (hp : t.isBoundary p = true)
    (hcut : ∀ f ∈ fs, ¬ f.Cuts p) :
    (∃ f ∈ fs, f.stop ≤ p ∧ '\n' ∉ t.between f.start p ∧
      ((apply fs t).text.takeBytes (moveStart fs p)).lastLine = f.content ++ t.between f.stop p) ∨
    ((∀ f ∈ fs, f.stop ≤ p → '\n' ∈ t.between f.start p) ∧
      ((apply fs t).text.takeBytes (moveStart fs p)).lastLine = (t.takeBytes p).lastLine) := by
  have hsorted : Reindents t (sort fs) := h.perm (perm_sort fs).symm
  have hmem : ∀ {f}, f ∈ sort fs → f ∈ fs := fun hf => (perm_sort fs).subset hf
  obtain ⟨-, htake⟩ := takeBytes_apply h.valid h.apart hp
    (parts_stop fun f hf => hcut f (hmem hf))
  have hstart : t.between 0 p = t.takeBytes p := by rw [Text.between, Text.dropBytes_zero]
  have hline := hsorted.lastLine_refillTo (u := []) (Nat.zero_le p) (Text.isBoundary_zero t)
    (inOrder_sort h.valid h.apart) fun _ _ _ => Text.isLineStart_nil
  rw [List.nil_append, List.nil_append, hstart] at hline
  rw [moveStart, htake]
  rcases hline with ⟨f, hf, hline⟩ | ⟨hothers, hline⟩
  · exact Or.inl ⟨f, hmem hf, hline⟩
  · exact Or.inr ⟨fun f hf => hothers f ((perm_sort fs).mem_iff.2 hf), hline⟩

/-- Behind an offset at which no line starts the rest of the line moves along with it. -/
theorem moveStart_eq_add {a : Nat} (h : Reindents t fs) (hle : a ≤ p)
    (ha : t.isBoundary a = true) (hp : t.isBoundary p = true) (hacut : ∀ f ∈ fs, ¬ f.Cuts a)
    (hpcut : ∀ f ∈ fs, ¬ f.Cuts p) (hopened : ¬ Text.IsLineStart (t.takeBytes a))
    (hfree : '\n' ∉ t.between a p) : moveStart fs p = moveStart fs a + (p - a) := by
  obtain ⟨hmoved, hpiece⟩ := between_apply h.valid h.apart hle ha hp hacut
    (fun f _ hstop => decide_eq_true (Nat.le_trans hstop hle))
    (parts_stop fun f hf => hpcut f ((perm_sort fs).subset hf))
  have hsame : refillTo t (fun f => decide (f.stop ≤ p)) a p (behind (sort fs) a) =
      t.between a p := by
    refine refillTo_of_not_passed fun f hf => decide_eq_false fun hstop => ?_
    obtain ⟨hf, hstart, -⟩ := (h.behind_sort hacut).2.2 f hf
    exact absurd ((h.indents f hf).start_lt hopened hfree hstop) (Nat.not_lt.2 hstart)
  have hlength := Text.byteLength_between hmoved
    (dropBytes_apply h.valid h.apart ha hacut).1 (dropBytes_apply h.valid h.apart hp hpcut).1
  rw [hpiece, hsame, Text.byteLength_between hle ha hp] at hlength
  change moveStart fs a ≤ moveStart fs p at hmoved
  change p - a = moveStart fs p - moveStart fs a at hlength
  omega

end Reindents
end Fixing
end WebLint
