import WebLint.Proofs.Checker
import WebLint.Proofs.Text.Cut
import WebLint.Proofs.Tree

/-!
# Repairs stay inside the regions

Of markup a checker repairs the regions of its own language alone.  A fix may
touch the ends of a region, overlap others, be empty or no range of the text at
all: what the fixes of a file make of it is the file with other contents in its
regions.

What is proved here:

* `framed_splice` — applying fixes from an offset on keeps what stands outside
  the spans they lie in;
* `apply_eq_refill` — so the new text is the old one with other contents in
  these spans, and in these alone;
* `apply_checkText_eq_refill` — the fixes of a file change its regions only, and
  leave the regions of another language as they are.
-/

namespace WebLint

/-! ## Spans in order -/

namespace Region

theorem inOrder_cons {first : Nat} {s : Span} {ss : List Span} :
    inOrder first (s :: ss) = true ↔
      first ≤ s.start ∧ s.start ≤ s.stop ∧ inOrder s.stop ss = true := by
  simp [inOrder, and_assoc]

/-- Spans that follow each other are in order. -/
theorem inOrder_of_follow {first : Nat} {ss : List Span} (hfirst : ∀ s ∈ ss, first ≤ s.start)
    (hordered : ∀ s ∈ ss, s.start ≤ s.stop) (h : ss.Pairwise fun r s => r.stop ≤ s.start) :
    inOrder first ss = true := by
  induction ss generalizing first with
  | nil => rfl
  | cons s ss ih =>
    obtain ⟨hs, hrest⟩ := List.pairwise_cons.1 h
    exact inOrder_cons.2 ⟨hfirst s List.mem_cons_self, hordered s List.mem_cons_self,
      ih hs (fun r hr => hordered r (List.mem_cons_of_mem s hr)) hrest⟩

/-- Spans in order start where the first one may start, or behind it. -/
theorem le_start_of_inOrder {first : Nat} {ss : List Span} (h : inOrder first ss = true)
    {s : Span} (hs : s ∈ ss) : first ≤ s.start := by
  induction ss generalizing first with
  | nil => cases hs
  | cons r ss ih =>
    obtain ⟨hr, hrr, hss⟩ := inOrder_cons.1 h
    rcases List.mem_cons.1 hs with rfl | hs
    · exact hr
    · have hle : r.stop ≤ s.start := ih hss hs
      omega

/-- Each of some spans in order ends behind its start. -/
theorem start_le_stop_of_inOrder {first : Nat} {ss : List Span} (h : inOrder first ss = true)
    {s : Span} (hs : s ∈ ss) : s.start ≤ s.stop := by
  induction ss generalizing first with
  | nil => cases hs
  | cons r ss ih =>
    obtain ⟨-, hrr, hss⟩ := inOrder_cons.1 h
    rcases List.mem_cons.1 hs with rfl | hs
    · exact hrr
    · exact ih hss hs

end Region

namespace Fixing

/-! ## Other contents in some spans -/

/-- The text from the offset `first` on, with other contents in some spans. -/
def refill (t : Text) (first : Nat) : List (Span × Text) → Text
  | [] => t.dropBytes first
  | (s, content) :: rest => t.between first s.start ++ content ++ refill t s.stop rest

/-- Up to the first span nothing changes. -/
theorem refill_of_le (t : Text) {first cursor : Nat} {filled : List (Span × Text)}
    (hle : first ≤ cursor) (h : ∀ p ∈ filled, cursor ≤ p.1.start) :
    refill t first filled = t.between first cursor ++ refill t cursor filled := by
  cases filled with
  | nil => exact (Text.between_append_dropBytes t hle).symm
  | cons p rest =>
    have hp := h p List.mem_cons_self
    rw [refill, refill, ← Text.between_append_between t hle hp]
    simp only [List.append_assoc]

/-- With the contents they have, nothing changes. -/
theorem refill_between (t : Text) {first : Nat} {spans : List Span}
    (h : Region.inOrder first spans = true) :
    refill t first (spans.map fun s => (s, t.between s.start s.stop)) = t.dropBytes first := by
  induction spans generalizing first with
  | nil => rfl
  | cons s ss ih =>
    obtain ⟨hfirst, hs, hss⟩ := Region.inOrder_cons.1 h
    rw [List.map_cons, refill, ih hss, Text.between_append_between t hfirst hs,
      Text.between_append_dropBytes t (Nat.le_trans hfirst hs)]

/-- Whether a text is what stands from the offset `first` on, but for the
contents of the spans that are free.  The offset may lie behind spans, which
then do not matter any more, or in one. -/
def Framed (t : Text) (free : Span → Prop) (first : Nat) : List Span → Text → Prop
  | [], out => out = t.dropBytes first
  | s :: ss, out =>
    if s.stop < first then Framed t free first ss out
    else
      ∃ content rest, out = t.between first s.start ++ content ++ rest ∧
        (¬ free s → content = t.between (max first s.start) s.stop) ∧
        Framed t free s.stop ss rest

section Framed

variable {t : Text} {free : Span → Prop}

theorem framed_cons_of_lt {first : Nat} {s : Span} {ss : List Span} {out : Text}
    (h : s.stop < first) : Framed t free first (s :: ss) out ↔ Framed t free first ss out := by
  rw [Framed, if_pos h]

theorem framed_cons_of_le {first : Nat} {s : Span} {ss : List Span} {out : Text}
    (h : first ≤ s.stop) : Framed t free first (s :: ss) out ↔
      ∃ content rest, out = t.between first s.start ++ content ++ rest ∧
        (¬ free s → content = t.between (max first s.start) s.stop) ∧
        Framed t free s.stop ss rest := by
  rw [Framed, if_neg (by omega)]

/-- The piece up to a span and what of the span lies behind the offset. -/
theorem between_append_between_max {first start stop : Nat} (h : start ≤ stop) :
    t.between first start ++ t.between (max first start) stop = t.between first stop := by
  by_cases hf : first ≤ start
  · rw [Nat.max_eq_right hf, Text.between_append_between t hf h]
  · rw [Text.between_eq_nil t (by omega), Nat.max_eq_left (by omega)]
    rfl

/-- A text as it is is framed: nothing has changed. -/
theorem framed_dropBytes {first : Nat} {ss : List Span}
    (hss : ∀ s ∈ ss, s.start ≤ s.stop) : Framed t free first ss (t.dropBytes first) := by
  induction ss generalizing first with
  | nil => rfl
  | cons s ss ih =>
    have hs : s.start ≤ s.stop := hss s List.mem_cons_self
    have hrest : ∀ r ∈ ss, r.start ≤ r.stop := fun r hr => hss r (List.mem_cons_of_mem s hr)
    by_cases h : s.stop < first
    · exact (framed_cons_of_lt h).2 (ih hrest)
    · refine (framed_cons_of_le (by omega)).2
        ⟨t.between (max first s.start) s.stop, t.dropBytes s.stop, ?_, fun _ => rfl, ih hrest⟩
      rw [between_append_between_max hs, Text.between_append_dropBytes t (by omega)]

/-- What is framed stays so with the piece in front of it, wherever the piece
starts. -/
theorem framed_between_append {first next : Nat} {ss : List Span} {out : Text}
    (hss : ∀ s ∈ ss, s.start ≤ s.stop) (hle : first ≤ next) (h : Framed t free next ss out) :
    Framed t free first ss (t.between first next ++ out) := by
  induction ss generalizing first next out with
  | nil =>
    rw [show out = t.dropBytes next from h, Text.between_append_dropBytes t hle]
    rfl
  | cons s ss ih =>
    have hs : s.start ≤ s.stop := hss s List.mem_cons_self
    have hrest : ∀ r ∈ ss, r.start ≤ r.stop := fun r hr => hss r (List.mem_cons_of_mem s hr)
    by_cases hfirst : s.stop < first
    · exact (framed_cons_of_lt hfirst).2
        (ih hrest hle ((framed_cons_of_lt (by omega)).1 h))
    by_cases hnext : s.stop < next
    · -- the span lies in the piece, as it was
      refine (framed_cons_of_le (by omega)).2
        ⟨t.between (max first s.start) s.stop, t.between s.stop next ++ out, ?_, fun _ => rfl,
          ih hrest (by omega) ((framed_cons_of_lt hnext).1 h)⟩
      rw [between_append_between_max hs, ← List.append_assoc,
        Text.between_append_between t (by omega) (by omega)]
    obtain ⟨content, rest, rfl, hkept, hframed⟩ := (framed_cons_of_le (by omega)).1 h
    by_cases hin : next ≤ s.start
    · refine (framed_cons_of_le (by omega)).2 ⟨content, rest, ?_, fun hfree => ?_, hframed⟩
      · rw [← List.append_assoc, ← List.append_assoc, Text.between_append_between t hle hin]
      · rw [hkept hfree, Nat.max_eq_right hin, Nat.max_eq_right (by omega)]
    · -- the piece ends in the span, and its end becomes the start of the contents
      have hnil : t.between next s.start = [] := Text.between_eq_nil t (by omega)
      refine (framed_cons_of_le (by omega)).2
        ⟨t.between (max first s.start) next ++ content, rest, ?_, fun hfree => ?_, hframed⟩
      · rw [hnil, List.nil_append, ← List.append_assoc (t.between first s.start),
          between_append_between_max (by omega), List.append_assoc]
      · rw [hkept hfree, Nat.max_eq_left (by omega : s.start ≤ next),
          Text.between_append_between t (by omega) (by omega)]

/-- A replacement inside a free span may be anything. -/
theorem framed_replace {first start stop : Nat} {ss : List Span} {s : Span} {content out : Text}
    (hss : Region.inOrder first ss = true) (hs : s ∈ ss) (hfree : free s)
    (hstart : s.start ≤ start) (hle : start ≤ stop) (hstop : stop ≤ s.stop)
    (h : Framed t free stop ss out) : Framed t free start ss (content ++ out) := by
  induction ss generalizing first out with
  | nil => cases hs
  | cons r ss ih =>
    obtain ⟨-, hr, horder⟩ := Region.inOrder_cons.1 hss
    rcases List.mem_cons.1 hs with rfl | hs
    · -- the span itself: what is put in comes first in its new contents
      obtain ⟨inside, rest, rfl, -, hframed⟩ := (framed_cons_of_le hstop).1 h
      have hnil : t.between stop s.start = [] := Text.between_eq_nil t (by omega)
      have hnil' : t.between start s.start = [] := Text.between_eq_nil t hstart
      refine (framed_cons_of_le (by omega)).2
        ⟨content ++ inside, rest, ?_, fun h => absurd hfree h, hframed⟩
      rw [hnil, hnil', List.nil_append, List.nil_append, List.append_assoc]
    have hbehind : r.stop ≤ s.start := Region.le_start_of_inOrder horder hs
    by_cases hlt : r.stop < start
    · exact (framed_cons_of_lt hlt).2
        (ih horder hs ((framed_cons_of_lt (by omega)).1 h))
    -- the replacement starts where the span `r` in front of `s` ends
    have hnil : t.between start r.start = [] := Text.between_eq_nil t (by omega)
    have hnil' : t.between (max start r.start) r.stop = [] := Text.between_eq_nil t (by omega)
    by_cases hstop' : r.stop < stop
    · have hrest : Framed t free r.stop ss (content ++ out) := by
        have hstart' : r.stop = start := by omega
        rw [hstart']
        exact ih horder hs ((framed_cons_of_lt hstop').1 h)
      exact (framed_cons_of_le (by omega)).2
        ⟨[], content ++ out, by rw [hnil]; rfl, fun _ => hnil'.symm, hrest⟩
    · obtain ⟨inside, rest, rfl, hkept, hframed⟩ := (framed_cons_of_le (by omega)).1 h
      have hstart' : stop = start := by omega
      subst hstart'
      rw [hnil, List.nil_append]
      by_cases hfree' : free r
      · exact (framed_cons_of_le (by omega)).2 ⟨content ++ inside, rest,
          by rw [hnil, List.nil_append, List.append_assoc], fun h => absurd hfree' h, hframed⟩
      · have hstart' : r.stop = stop := by omega
        have hrest : Framed t free r.stop ss (content ++ rest) := by
          rw [hstart'] at hframed ⊢
          exact ih horder hs hframed
        refine (framed_cons_of_le (by omega)).2
          ⟨[], content ++ rest, ?_, fun _ => hnil'.symm, hrest⟩
        rw [hkept hfree', hnil, hnil']
        rfl

/-- From in front of its spans, a framed text is the old one with other
contents in the spans, and the old contents in those that are not free. -/
theorem exists_refill_of_framed {first : Nat} {ss : List Span} {out : Text}
    (hss : Region.inOrder first ss = true) (h : Framed t free first ss out) :
    ∃ filled : List (Span × Text), filled.map (·.1) = ss ∧ out = refill t first filled ∧
      ∀ p ∈ filled, ¬ free p.1 → p.2 = t.between p.1.start p.1.stop := by
  induction ss generalizing first out with
  | nil => exact ⟨[], rfl, h, fun p hp => absurd hp List.not_mem_nil⟩
  | cons s ss ih =>
    obtain ⟨hfirst, hs, horder⟩ := Region.inOrder_cons.1 hss
    obtain ⟨content, rest, rfl, hkept, hframed⟩ := (framed_cons_of_le (by omega)).1 h
    obtain ⟨filled, hspans, rfl, hfilled⟩ := ih horder hframed
    refine ⟨(s, content) :: filled, by rw [List.map_cons, hspans], rfl, fun p hp hfree => ?_⟩
    rcases List.mem_cons.1 hp with rfl | hp
    · rw [hkept hfree, Nat.max_eq_right hfirst]
    · exact hfilled p hp hfree

end Framed

/-! ## Applying fixes -/

theorem isValid_iff {t : Text} {f : Fix} : isValid t f = true ↔
    f.start ≤ f.stop ∧ t.isBoundary f.start = true ∧ t.isBoundary f.stop = true := by
  simp [isValid, and_assoc]

/-- Applying fixes that lie in free spans, from a boundary on. -/
theorem framed_splice {t : Text} {free : Span → Prop} {ss : List Span}
    (hss : Region.inOrder 0 ss = true) {fs : List Fix} {cursor : Nat}
    (hcursor : t.isBoundary cursor = true) (hvalid : ∀ f ∈ fs, isValid t f = true)
    (hin : ∀ f ∈ fs, ∃ s ∈ ss, free s ∧ s.start ≤ f.start ∧ f.stop ≤ s.stop) :
    Framed t free cursor ss (splice t cursor fs).text := by
  have hordered : ∀ s ∈ ss, s.start ≤ s.stop := fun s hs => Region.start_le_stop_of_inOrder hss hs
  induction fs generalizing cursor with
  | nil => exact framed_dropBytes hordered
  | cons f fs ih =>
    have hvalid' : ∀ g ∈ fs, isValid t g = true := fun g hg => hvalid g (List.mem_cons_of_mem f hg)
    have hin' : ∀ g ∈ fs, ∃ s ∈ ss, free s ∧ s.start ≤ g.start ∧ g.stop ≤ s.stop :=
      fun g hg => hin g (List.mem_cons_of_mem f hg)
    rw [splice]
    split
    · exact ih hcursor hvalid' hin'
    · rename_i hcursor'
      obtain ⟨hle, -, hstop⟩ := isValid_iff.1 (hvalid f List.mem_cons_self)
      obtain ⟨s, hs, hfree, hstart, hend⟩ := hin f List.mem_cons_self
      have hreplaced : Framed t free f.start ss (f.content ++ (splice t f.stop fs).text) :=
        framed_replace hss hs hfree hstart hle hend (ih hstop hvalid' hin')
      have hwhole := framed_between_append hordered (Nat.le_of_not_lt hcursor') hreplaced
      rw [← Text.slice_eq_between t hcursor (by omega), ← List.append_assoc] at hwhole
      exact hwhole

/-- Applying fixes that lie in free spans gives these spans other contents, and
changes nothing else. -/
theorem apply_eq_refill {t : Text} {free : Span → Prop} {ss : List Span}
    (hss : Region.inOrder 0 ss = true) {fixes : List Fix}
    (hin : ∀ f ∈ fixes, ∃ s ∈ ss, free s ∧ s.start ≤ f.start ∧ f.stop ≤ s.stop) :
    ∃ filled : List (Span × Text), filled.map (·.1) = ss ∧
      (apply fixes t).text = refill t 0 filled ∧
      ∀ p ∈ filled, ¬ free p.1 → p.2 = t.between p.1.start p.1.stop := by
  have hframed : Framed t free 0 ss (apply fixes t).text := by
    refine framed_splice hss (by cases t <;> rfl) (fun f hf => (List.mem_filter.1 hf).2) ?_
    intro f hf
    exact hin f (List.mem_mergeSort.1 (List.mem_filter.1 hf).1)
  exact exists_refill_of_framed hss hframed

/-- **The fixes of a file stay in its regions.**  The file they make is the old
one with other contents in the regions that the checker reads.  Whatever other
spans there are between these, such as the regions of another language, they
keep their contents. -/
theorem apply_checkText_eq_refill (c : Checker) (parser : Parser) (plan : Plan) (file : Path)
    (text : Text) (regions : List Region) (found : List Diagnostic)
    (hregions : (Document.ofFile parser file text c.language).regions = some regions)
    (hfound : (c.checkText parser plan file text).value = .ok found) :
    (∃ filled : List (Span × Text), filled.map (·.1) = regions.map (·.span) ∧
      (apply (fixesOf found) text).text = refill text 0 filled) ∧
    ∀ spans : List Span, Region.inOrder 0 spans = true → (∀ r ∈ regions, r.span ∈ spans) →
      ∃ filled : List (Span × Text), filled.map (·.1) = spans ∧
        (apply (fixesOf found) text).text = refill text 0 filled ∧
        ∀ p ∈ filled, (∀ r ∈ regions, r.span ≠ p.1) →
          p.2 = text.between p.1.start p.1.stop := by
  have hin : ∀ f ∈ fixesOf found, ∃ r ∈ regions, r.span.start ≤ f.start ∧ f.stop ≤ r.span.stop := by
    intro f hf
    have hcontains := Checker.contains_of_mem_fixesOf hfound hf
    rw [Document.contains, hregions] at hcontains
    simpa using hcontains
  have hspans : ∀ spans : List Span, Region.inOrder 0 spans = true →
      (∀ r ∈ regions, r.span ∈ spans) →
      ∃ filled : List (Span × Text), filled.map (·.1) = spans ∧
        (apply (fixesOf found) text).text = refill text 0 filled ∧
        ∀ p ∈ filled, (∀ r ∈ regions, r.span ≠ p.1) →
          p.2 = text.between p.1.start p.1.stop := by
    intro spans horder hmem
    have hfree : ∀ f ∈ fixesOf found, ∃ s ∈ spans,
        (∃ r ∈ regions, r.span = s) ∧ s.start ≤ f.start ∧ f.stop ≤ s.stop := by
      intro f hf
      obtain ⟨r, hr, hstart, hstop⟩ := hin f hf
      exact ⟨r.span, hmem r hr, ⟨r, hr, rfl⟩, hstart, hstop⟩
    obtain ⟨filled, hfilled, htext, hkept⟩ := apply_eq_refill (t := text) horder hfree
    exact ⟨filled, hfilled, htext, fun p hp hother =>
      hkept p hp fun ⟨r, hr, hspan⟩ => hother r hr hspan⟩
  refine ⟨?_, hspans⟩
  obtain ⟨filled, hfilled, htext, -⟩ :=
    hspans _ (Checker.inOrder_of_checkText hregions hfound) fun r hr => List.mem_map_of_mem hr
  exact ⟨filled, hfilled, htext⟩

/-! ### A file of two languages -/

/-- Markup with a stylesheet and a script in it. -/
def twoLanguages : Text := "<style>a</style><script>b</script>".toList

/-- The trees of this markup and of its stylesheet. -/
def twoLanguagesTrees : ParseTable :=
  [⟨.html, twoLanguages, none,
    ⟨false, .construct "document" 0 34
      [.construct "style_element" 0 16 [.construct "raw_text" 7 8],
       .construct "script_element" 16 34 [.construct "raw_text" 24 25]]⟩⟩,
   ⟨.css, twoLanguages, some [⟨7, 8⟩], ⟨false, .construct "stylesheet" 7 8⟩⟩]

/-- Fixes that leave their region, overlap, lie on a boundary or are no ranges,
as violations of the rule about quotes. -/
def boldViolations : List Violation :=
  [(⟨6, 8⟩, "x"), (⟨7, 8⟩, "bc"), (⟨7, 8⟩, "d"), (⟨8, 7⟩, "!"), (⟨8, 8⟩, "?"), (⟨8, 25⟩, "")].map
    fun p => ⟨.stringQuotes, "", p.1, some (.replace p.1 p.2.toList)⟩

/-- A checker of stylesheets that suggests them all. -/
def boldChecker : Checker := ⟨"bold", .style, fun _ _ _ _ _ => pure (.ok boldViolations)⟩

/-- What it finds in this markup. -/
def boldFound : List Diagnostic :=
  boldViolations.map (Checker.complete
    (boldChecker.document twoLanguagesTrees.parser ⟨"page.html"⟩ twoLanguages) default)

/-- Of all these fixes two change the text, and only the stylesheet. -/
theorem apply_boldFound :
    (boldChecker.checkText twoLanguagesTrees.parser default ⟨"page.html"⟩ twoLanguages).value =
        .ok boldFound ∧
      (apply (fixesOf boldFound) twoLanguages).text =
        "<style>bc?</style><script>b</script>".toList ∧
      ∃ filled : List (Span × Text), filled.map (·.1) = [⟨7, 8⟩, ⟨24, 25⟩] ∧
        (apply (fixesOf boldFound) twoLanguages).text = refill twoLanguages 0 filled ∧
        ∀ p ∈ filled, (∀ r ∈ [(⟨⟨7, 8⟩, 0⟩ : Region)], r.span ≠ p.1) →
          p.2 = twoLanguages.between p.1.start p.1.stop := by
  have hregions : (Document.ofFile twoLanguagesTrees.parser ⟨"page.html"⟩ twoLanguages
      boldChecker.language).regions = some [⟨⟨7, 8⟩, 0⟩] := by decide
  have hsorted : Diagnostic.sort boldFound = boldFound :=
    List.mergeSort_of_pairwise (by decide +kernel)
  have hfound : (boldChecker.checkText twoLanguagesTrees.parser default ⟨"page.html"⟩
      twoLanguages).value = .ok boldFound := congrArg Except.ok hsorted
  have hfixes : sort (fixesOf boldFound) = fixesOf boldFound :=
    List.mergeSort_of_pairwise (by decide +kernel)
  refine ⟨hfound, ?_, ?_⟩
  · rw [apply, hfixes]
    decide +kernel
  · exact (apply_checkText_eq_refill _ _ _ _ _ _ _ hregions hfound).2 [⟨7, 8⟩, ⟨24, 25⟩]
      (by decide) (by decide)

end Fixing
end WebLint
