import WebLint.Proofs.Style.Indentation

/-!
# One round of fixes indents a whole stylesheet

What is expected of a line depends on how far its region is indented, and that is read off
the very lines the fixes rewrite.  But the first line of a region is expected to have the
indentation it gives the region, so it keeps as many spaces as it starts with.

What is proved here:

* `eq_statement`, `firstIndent_settled` — the line a region is indented by is repaired for the
  statement it starts with alone, and so the region is indented as far as before;
* `contains_reflects`, `nested_settled` — where the rule looks in the new text it has
  looked in the old one, and expects the same;
* `fits_moved` — so each spot is indented as expected;
* `violations_moved_eq_nil` — and nothing is left to find.
-/

namespace WebLint

open Fixing

namespace Region

/-- Whether the first line of a region that is not blank, if there is one, is that of the tag
in front of the region, or starts with one of some statements: nothing but white space stands
in front of the statement in this line. -/
def OpensWith (t : Text) (statements : List Node) (r : Region) : Prop :=
  let margin : Text := (t.at r.span).takeWhile Text.isSpace
  let first := r.span.start + margin.byteLength
  margin = t.at r.span ∨ '\n' ∉ margin ∨
    ∃ n ∈ statements, n.isNamed = true ∧ first - margin.lastLine.byteLength ≤ n.start ∧
      n.start ≤ first

instance (t : Text) (statements : List Node) (r : Region) : Decidable (r.OpensWith t statements) :=
  inferInstanceAs (Decidable (_ = _ ∨ _ ∉ _ ∨ ∃ n ∈ statements, _))

end Region

namespace StyleIndentation

open StyleCheck

/-- Whether a document and its tree are as parsers give them. -/
structure IsParsed (d : Document) (root : Node) : Prop where
  /-- The nodes of the tree stand in the text. -/
  placed : root.IsPlaced d.text
  /-- Blocks open with a brace. -/
  opened : BlocksOpen root
  /-- Statements and braces cover some bytes and do not start with blanks. -/
  spots : SpotsStand d.text root
  /-- Nor do they cover nothing but white space. -/
  solid : ∀ s ∈ StyleCheck.spots 0 root.children, Text.isBlank (s.node.text d.text) = false
  /-- The regions stand between tags. -/
  embedded : ∀ regions ∈ d.regions, Region.Embedded d.text regions

section

variable {d : Document} {o : RuleOptions} {root : Node} {fs : List Fix}

/-- A statement at the top of a sheet is a spot. -/
theorem statement_mem_spots {n : Node} (hn : n ∈ root.children) (hnamed : n.isNamed = true) :
    Spot.statement 0 n ∈ StyleCheck.spots 0 root.children := by
  rw [spots_eq_flatMap]
  refine List.mem_flatMap.2 ⟨n, hn, ?_⟩
  rw [spotsOf, if_pos hnamed]
  exact List.mem_cons_self

namespace IsParsed

variable (h : IsParsed d root)
include h

theorem reindents : Reindents d.text (repairs d o root) :=
  reindents_repairs h.placed h.spots h.opened

/-- What is repaired lies in a region. -/
theorem within {regions : List Region} (hd : d.regions = some regions) :
    ∀ f ∈ repairs d o root, ∃ r ∈ regions, r.span.start ≤ f.start ∧ f.stop ≤ r.span.stop := by
  intro f hf
  obtain ⟨-, -, -, -, hin, -⟩ := exists_spot_of_mem h.placed h.spots hf
  rw [Document.contains, hd] at hin
  simpa using hin

/-- Where a spot starts is kept. -/
theorem kept {s : Spot} (hs : s ∈ StyleCheck.spots 0 root.children) :
    ∀ f ∈ repairs d o root, f.start ≤ s.node.start → f.stop ≤ s.node.start := by
  have hmem := node_mem_preorder_of_mem_spots hs
  exact kept_of_indents h.reindents.indents (h.placed.boundary _ hmem).1
    ((h.spots s hs).2.isBlank_head h.placed hmem (h.spots s hs).1)

/-- In front of a statement at the top of a sheet end all spots that start there. -/
theorem stop_le_start {s : Spot} (hs : s ∈ StyleCheck.spots 0 root.children) {n : Node}
    (hn : n ∈ root.children) (hlt : s.node.start < n.start) : s.node.stop ≤ n.start := by
  rw [spots_eq_flatMap] at hs
  obtain ⟨c, hc, hs⟩ := List.mem_flatMap.1 hs
  have hwithin := (h.placed.child hc).within (node_mem_preorder.1 hs)
  have hne : c ≠ n := by
    rintro rfl
    omega
  have hordered := h.placed.ordered n (Node.mem_preorder_of_child hn (Node.self_mem_preorder n))
  have hapart := h.placed.apart_of_ne hc hn hne
  omega

/-- In the white space a region starts with stands no spot in front of a statement at the top:
it would be blank. -/
theorem eq_statement {regions : List Region} (hd : d.regions = some regions) {r : Region}
    (hr : r ∈ regions) {s : Spot} (hs : s ∈ StyleCheck.spots 0 root.children) {n : Node}
    (hn : n ∈ root.children) (hnamed : n.isNamed = true) (hstart : r.span.start ≤ s.node.start)
    (hle : s.node.start ≤ n.start)
    (hend : n.start ≤ r.span.start + Text.byteLength ((d.text.at r.span).takeWhile Text.isSpace)) :
    s = .statement 0 n := by
  refine spot_eq_of_start_eq h.placed h.spots h.opened hs (statement_mem_spots hn hnamed) ?_
  refine Nat.le_antisymm hle (Nat.le_of_not_lt fun hfront => ?_)
  have hbehind := h.stop_le_start hs hn hfront
  have hordered := h.placed.ordered _ (node_mem_preorder_of_mem_spots hs)
  have hboundary := h.placed.boundary _ (node_mem_preorder_of_mem_spots hs)
  have hpiece : s.node.text d.text = d.text.between s.node.start s.node.stop :=
    Text.slice_eq_between _ hboundary.1 hordered
  have hblank := (h.embedded regions hd).isBlank_margin hr hstart hordered
    (Nat.le_trans hbehind hend)
  rw [← hpiece, h.solid s hs] at hblank
  exact Bool.false_ne_true hblank

/-- The line a region is indented by is repaired, if at all, for the statement it starts
with. -/
theorem firstIndent_settled {regions : List Region} (hd : d.regions = some regions) {r : Region}
    (hr : r ∈ regions) (hbase : r.baseIndent = Region.firstIndent (d.text.at r.span))
    (hopens : r.OpensWith d.text root.children) :
    let fs := repairs d o root
    Region.firstIndent ((apply fs d.text).text.at (moveSpan fs r.span)) = r.baseIndent := by
  intro fs
  have hembedded := h.embedded regions hd
  rcases hembedded.firstIndent_moved h.reindents (h.within hd) hr rfl
    with hsame | ⟨hne, hnewline, f, hf, hlt, hline, hstop, hend, hmoved⟩
  · exact hsame.trans hbase.symm
  rcases hopens with hblank | hfree | ⟨n, hn, hnamed, hfirst, hlast⟩
  · exact absurd hblank hne
  · exact absurd hnewline hfree
  obtain ⟨s, hs, hindents, hfstop, -, hcontent⟩ := exists_spot_of_mem h.placed h.spots hf
  have hlead := hindents.1.le
  have hstart : f.stop ≤ n.start :=
    h.kept (statement_mem_spots hn hnamed) f hf (show f.start ≤ n.start by omega)
  obtain rfl : s = .statement 0 n :=
    h.eq_statement hd hr hs hn hnamed (by omega) (hfstop ▸ hstart) hlast
  have hplace : d.baseIndent n.start = r.baseIndent := by
    change f.stop = n.start at hfstop
    refine Document.baseIndent_eq hd hr ⟨by omega, by omega⟩ fun s hs hstart hstop => ?_
    exact hembedded.eq_of_holds hs hr ⟨hstart, hstop⟩ ⟨by omega, by omega⟩
  rw [hmoved, hcontent, Indent.spaces, List.length_replicate]
  change Indent.nested (d.baseIndent n.start) 0 o.styleSpaces = _
  rw [hplace, Indent.nested, Nat.zero_mul, Nat.add_zero]

/-! ## The new text -/

variable {d' : Document} (hmoved : Document.IsMoved (repairs d o root) d d')
  {s : Spot} (hs : s ∈ StyleCheck.spots 0 root.children) {a : Nat}
  (hin : d'.contains a (moveStart (repairs d o root) s.node.start) = true)
  (ha : a ≤ moveStart (repairs d o root) s.node.start)
include hmoved hs hin ha

/-- A region of the new text that holds the place of a spot has held the spot. -/
theorem exists_region_of_contains {regions : List Region} (hd : d.regions = some regions) :
    ∃ r ∈ regions, r.span.start ≤ s.node.start ∧ s.node.start ≤ r.span.stop ∧
      moveStart (repairs d o root) r.span.start ≤ a ∧
      moveStart (repairs d o root) s.node.start ≤ (moveSpan (repairs d o root) r.span).stop := by
  have hembedded := h.embedded regions hd
  have hkept := h.kept (o := o) hs
  rw [Document.contains, hmoved.regions, hd] at hin
  simp only [Option.map_some, List.any_map, List.any_eq_true, Function.comp_apply,
    Bool.and_eq_true, decide_eq_true_eq] at hin
  obtain ⟨r, hr, hstart, hstop⟩ := hin
  exact ⟨r, hr, hembedded.start_le h.reindents (h.within hd) hr hkept (Nat.le_trans hstart ha),
    hembedded.le_stop h.reindents (h.within hd) hr (uncut_of_kept hkept) hstop, hstart, hstop⟩

/-- Where the rule looks in the new text, it expects what it has expected in the old one. -/
theorem nested_settled
    (hbase : ∀ regions ∈ d.regions, ∀ r ∈ regions,
      r.baseIndent = Region.firstIndent (d.text.at r.span))
    (hopens : ∀ regions ∈ d.regions, ∀ r ∈ regions, r.OpensWith d.text root.children)
    (depth width : Nat) :
    Indent.nested (d'.baseIndent (moveStart (repairs d o root) s.node.start)) depth width =
      Indent.nested (d.baseIndent s.node.start) depth width := by
  cases hd : d.regions with
  | none =>
    have hd' : d'.regions = none := by rw [hmoved.regions, hd]; rfl
    simp only [Document.baseIndent, hd, hd']
  | some regions =>
    have hembedded := h.embedded regions hd
    have hkept := h.kept (o := o) hs
    obtain ⟨r, hr, hstart, hstop, hstart', hstop'⟩ :=
      h.exists_region_of_contains hmoved hs hin ha hd
    have hd' : d'.regions =
        some (regions.map (Region.moved (moveSpan (repairs d o root)) d'.text)) := by
      rw [hmoved.regions, hd]
      rfl
    have hold : d.baseIndent s.node.start = r.baseIndent :=
      Document.baseIndent_eq hd hr ⟨hstart, hstop⟩ fun q hq hqstart hqstop =>
        hembedded.eq_of_holds hq hr ⟨hqstart, hqstop⟩ ⟨hstart, hstop⟩
    have hnew := Document.baseIndent_eq hd' (List.mem_map_of_mem hr)
      ⟨Nat.le_trans hstart' ha, hstop'⟩ fun moved hmem hqstart hqstop => by
        obtain ⟨q, hq, rfl⟩ := List.mem_map.1 hmem
        have hqstart := hembedded.start_le h.reindents (h.within hd) hq hkept hqstart
        have hqstop := hembedded.le_stop h.reindents (h.within hd) hq (uncut_of_kept hkept)
          hqstop
        rw [hembedded.eq_of_holds hq hr ⟨hqstart, hqstop⟩ ⟨hstart, hstop⟩]
    have hsettled := h.firstIndent_settled (o := o) hd hr (hbase regions hd r hr)
      (hopens regions hd r hr)
    rw [hold, hnew, Region.moved, hmoved.text]
    exact congrArg (Indent.nested · depth width) hsettled

omit ha in
/-- Where a line has not changed in front of a spot, and the new line lies in a region, the old
one did. -/
theorem contains_reflects
    (hline : a = moveStart (repairs d o root) s.node.start -
      (Text.lastLine (d.text.takeBytes s.node.start)).byteLength)
    (hlength : (Text.lastLine (d.text.takeBytes s.node.start)).byteLength ≤
      moveStart (repairs d o root) s.node.start) :
    d.contains (s.node.start - (Text.lastLine (d.text.takeBytes s.node.start)).byteLength)
      s.node.start = true := by
  have hboundary := (h.placed.boundary _ (node_mem_preorder_of_mem_spots hs)).1
  cases hd : d.regions with
  | none =>
    rw [Document.contains, hd]
    exact decide_eq_true (Text.le_byteLength_of_isBoundary hboundary)
  | some regions =>
    have hembedded := h.embedded regions hd
    obtain ⟨r, hr, hstart, hstop, hstart', -⟩ :=
      h.exists_region_of_contains hmoved hs hin (by omega) hd
    obtain ⟨u, hu, -, hfree⟩ := Text.exists_append_lastLine (d.text.takeBytes s.node.start)
    have hbytes := congrArg Text.byteLength hu
    rw [Text.byteLength_append, Text.byteLength_takeBytes_of_isBoundary _ _ hboundary] at hbytes
    rw [Document.contains, hd]
    simp only [List.any_eq_true, Bool.and_eq_true, decide_eq_true_eq]
    refine ⟨r, hr, Nat.le_of_not_lt fun hlt => ?_, hstop⟩
    -- the region starts in the line, so it has moved as far as the spot
    have hsame : moveStart (repairs d o root) s.node.start =
        moveStart (repairs d o root) r.span.start + (s.node.start - r.span.start) := by
      refine h.reindents.moveStart_eq_add hstart (hembedded.boundary r hr).1 hboundary
        (hembedded.uncut_start (h.within hd) hr) (uncut_of_kept (h.kept hs))
        (hembedded.opened r hr) ?_
      have hcut := Text.takeBytes_append_between d.text hstart
      rw [hu] at hcut
      obtain ⟨w, -, hw⟩ := Text.exists_append_of_byteLength_le hcut.symm (by
        rw [Text.byteLength_takeBytes_of_isBoundary _ _ (hembedded.boundary r hr).1]
        omega)
      rw [hw] at hfree
      exact fun hmem => hfree (List.mem_append_right w hmem)
    omega

omit hin ha in
/-- **A spot is indented as expected** after the fixes. -/
theorem fits_moved
    (hbase : ∀ regions ∈ d.regions, ∀ r ∈ regions,
      r.baseIndent = Region.firstIndent (d.text.at r.span))
    (hopens : ∀ regions ∈ d.regions, ∀ r ∈ regions, r.OpensWith d.text root.children) :
    Fits d' o.styleSpaces s.depth (s.node.mapSpan (moveSpan (repairs d o root))) := by
  have hmem := node_mem_preorder_of_mem_spots hs
  have hboundary := (h.placed.boundary _ hmem).1
  have hkept := h.kept (o := o) hs
  have hcut := uncut_of_kept hkept
  have hstart : (s.node.mapSpan (moveSpan (repairs d o root))).start =
      moveStart (repairs d o root) s.node.start := Node.start_mapSpan
  rw [Fits, expected, lead, hstart, hmoved.text]
  intro hblank hin
  rw [h.nested_settled hmoved hs hin (Nat.sub_le _ _) hbase hopens]
  rcases h.reindents.lastLine_apply hboundary hcut with
    ⟨f, hf, hstop, -, hline⟩ | ⟨hothers, hline⟩
  · -- the line is indented, and for this spot
    obtain ⟨r, hr, hindents, hfstop, -, hcontent⟩ := exists_spot_of_mem h.placed h.spots hf
    rw [hline, List.all_append, Bool.and_eq_true] at hblank
    have hend : f.stop = s.node.start := by
      refine Nat.le_antisymm hstop (Nat.le_of_not_lt fun hlt => ?_)
      obtain ⟨c, rest, hpiece, hdrop⟩ :=
        Text.exists_between_eq_cons hlt hindents.1.boundary.2 hboundary
      have hunblank := hindents.1.isBlank_head_stop c (by rw [hdrop]; rfl)
      rw [hpiece, List.all_cons, hunblank] at hblank
      exact Bool.false_ne_true hblank.2
    obtain rfl := spot_eq_of_start_eq h.placed h.spots h.opened hr hs (hfstop.symm.trans hend)
    rw [hline, hend, Text.between_eq_nil _ (Nat.le_refl _), List.append_nil, hcontent,
      expected]
  · -- the line is as it was, so there was nothing to repair
    have hlength := Text.byteLength_lastLine_le ((apply (repairs d o root) d.text).text.takeBytes
      (moveStart (repairs d o root) s.node.start))
    have hbytes := Text.byteLength_takeBytes_le (apply (repairs d o root) d.text).text
      (moveStart (repairs d o root) s.node.start)
    rw [hline] at hblank hin hlength ⊢
    have hnone : ofNode d o.styleSpaces s.depth s.node = none := by
      cases hv : ofNode d o.styleSpaces s.depth s.node with
      | none => rfl
      | some v =>
        obtain ⟨f, hf, hindents, hstop⟩ := exists_fix_of_ofSpot h.placed h.spots hs hv
        have hnewline := hothers f hf (Nat.le_of_eq hstop)
        rw [← hstop] at hnewline
        exact absurd hnewline (Text.not_mem_of_isBlank hindents.1.all_isBlank)
    exact ofNode_eq_none_iff.1 hnone hblank
      (h.contains_reflects hmoved hs hin rfl (Nat.le_trans hlength hbytes))

end IsParsed

end

/-! ## One round -/

/-- **One round of fixes indents a whole stylesheet.**  Let it be alone in its file or in the
regions of markup, with any tree as parsers place them, and let the first line that is not
blank of each region be that of the tag in front of it, or start with a statement at the top.
What a check finds about indentation, whatever else it looks for, has fixes of which none is
skipped.  When these are applied and the nodes and regions move along with the text they
cover, a check finds nothing about indentation any more, and each region is indented as far as
before. -/
theorem violations_moved_eq_nil (parser : Parser) (file : Path) (text : Text) (o : RuleOptions)
    (root : Node) (hparsed : IsParsed (Document.ofFile parser file text .style) root)
    (hopens : ∀ regions ∈ (Document.ofFile parser file text .style).regions, ∀ r ∈ regions,
      r.OpensWith text root.children) :
    let d := Document.ofFile parser file text .style
    let repairs := (violations d o root).filterMap (·.fix)
    let repaired := (apply repairs text).text
    let moved := root.mapSpan (moveSpan repairs)
    (∀ (rules : RuleSet) (vs : List Violation),
      (StyleCheck.violations parser d rules o root).value = .ok vs →
      vs.filter (·.rule == .indentation) = whenEnabled rules .indentation (violations d o root)) ∧
    (apply repairs text).skipped = false ∧
    ∀ parser' : Parser,
      (file.isMarkup = true → (parser' .html repaired none).root =
        (parser .html text none).root.mapSpan (moveSpan repairs)) →
      let d' := Document.ofFile parser' file repaired .style
      violations d' o moved = [] ∧
        (∀ (rules : RuleSet) (vs : List Violation),
          (StyleCheck.violations parser' d' rules o moved).value = .ok vs →
          ∀ v ∈ vs, v.rule ≠ .indentation) ∧
        d'.regions = d.regions.map
          (List.map fun r => ⟨moveSpan repairs r.span, r.baseIndent⟩) := by
  intro d repairs repaired moved
  have hbase : ∀ regions ∈ d.regions, ∀ r ∈ regions,
      r.baseIndent = Region.firstIndent (text.at r.span) :=
    Document.baseIndent_of_mem_regions
  have hrepairs : Reindents text repairs := hparsed.reindents
  refine ⟨fun rules vs h => filter_indentation h, ?_, fun parser' hmarkup => ?_⟩
  · rw [apply_of_apart hrepairs.valid hrepairs.apart]
  have hmoved : Document.IsMoved repairs d (Document.ofFile parser' file repaired .style) :=
    Document.isMoved_ofFile hmarkup
  have hnone : violations (Document.ofFile parser' file repaired .style) o moved = [] := by
    rw [violations, spots_mapSpan, List.filterMap_map]
    refine List.filterMap_eq_nil_iff.2 fun s hs => ?_
    rw [Function.comp_apply, ofSpot, Spot.depth_mapSpan, Spot.node_mapSpan]
    exact ofNode_eq_none_iff.2 (hparsed.fits_moved hmoved hs hbase hopens)
  refine ⟨hnone, fun rules vs h v hv hrule => ?_, ?_⟩
  · have hmem : v ∈ vs.filter (·.rule == .indentation) :=
      List.mem_filter.2 ⟨hv, beq_iff_eq.2 hrule⟩
    rw [filter_indentation h, hnone] at hmem
    exact List.not_mem_nil (mem_of_mem_whenEnabled hmem)
  · rw [hmoved.regions]
    cases hregions : d.regions with
    | none => rfl
    | some regions =>
      refine congrArg some (List.map_congr_left fun r hr => ?_)
      have hr' := hbase regions hregions r hr
      exact congrArg (Region.mk _)
        (hparsed.firstIndent_settled hregions hr hr' (hopens regions hregions r hr))

/-! ### A page -/

/-- A page whose stylesheet is indented by a space, a tab and a space, and nowhere else. -/
def tabbedPage : Text := "<style>\n \t a\x7b\nb:c\n\x7d\n</style>".toList

/-- The tree of the markup. -/
def tabbedMarkup : Node :=
  .construct "document" 0 28
    [.construct "style_element" 0 28
      [.construct "start_tag" 0 7, .construct "raw_text" 7 20, .construct "end_tag" 20 28]]

/-- The tree of the stylesheet. -/
def tabbedSheet : Node :=
  .construct "stylesheet" 7 20
    [.construct "rule_set" 11 19
      [.construct "selectors" 11 12 [.construct "tag_name" 11 12],
       .construct "block" 12 19
        [.token "\x7b" 12,
         .construct "declaration" 14 17
          [.construct "property_name" 14 15, .token ":" 15, .construct "plain_value" 16 17],
         .token "\x7d" 18]]]

/-- The fixes of this stylesheet. -/
def tabbedFixes : List Fix := [⟨8, 11, " ".toList⟩, ⟨14, 14, "   ".toList⟩, ⟨18, 18, " ".toList⟩]

/-- The page with its stylesheet indented by one space. -/
def settledPage : Text := "<style>\n a\x7b\n   b:c\n \x7d\n</style>".toList

/-- The parser that knows the markup of both pages. -/
def pageTrees : ParseTable :=
  [⟨.html, tabbedPage, none, ⟨false, tabbedMarkup⟩⟩,
   ⟨.html, settledPage, none, ⟨false, tabbedMarkup.mapSpan (moveSpan tabbedFixes)⟩⟩]

/-- The stylesheet of the page is indented as expected after one round, by one space as
before. -/
theorem violations_moved_tabbedPage :
    let d := Document.ofFile pageTrees.parser ⟨"page.html"⟩ tabbedPage .style
    let d' := Document.ofFile pageTrees.parser ⟨"page.html"⟩ settledPage .style
    IsParsed d tabbedSheet ∧
      (∀ regions ∈ d.regions, ∀ r ∈ regions, r.OpensWith tabbedPage tabbedSheet.children) ∧
      (violations d {} tabbedSheet).filterMap (·.fix) = tabbedFixes ∧
      (apply tabbedFixes tabbedPage).text = settledPage ∧
      violations d' {} (tabbedSheet.mapSpan (moveSpan tabbedFixes)) = [] ∧
      d.regions = some [⟨⟨7, 20⟩, 1⟩] ∧ d'.regions = some [⟨⟨7, 22⟩, 1⟩] := by
  intro d d'
  have hregions : d.regions = some [⟨⟨7, 20⟩, 1⟩] := by decide +kernel
  have hembedded : ∀ regions ∈ d.regions, Region.Embedded tabbedPage regions := by
    rw [hregions]
    rintro _ ⟨⟩
    decide +kernel
  have hparsed : IsParsed d tabbedSheet := ⟨by decide +kernel, by decide +kernel,
    by decide +kernel, by decide +kernel, hembedded⟩
  have hopens : ∀ regions ∈ d.regions, ∀ r ∈ regions,
      r.OpensWith tabbedPage tabbedSheet.children := by
    rw [hregions]
    rintro _ ⟨⟩
    decide +kernel
  have hrepairs : (violations d {} tabbedSheet).filterMap (·.fix) = tabbedFixes := by
    decide +kernel
  have hsort : sort tabbedFixes = tabbedFixes := sort_eq_self (by decide +kernel)
  have hrepaired : (apply tabbedFixes tabbedPage).text = settledPage := by
    rw [apply, hsort]
    decide +kernel
  have hspan : moveSpan tabbedFixes ⟨7, 20⟩ = ⟨7, 22⟩ := by
    rw [moveSpan, moveStart, moveStop, hsort]
    decide +kernel
  obtain ⟨-, -, hround⟩ := violations_moved_eq_nil pageTrees.parser ⟨"page.html"⟩ tabbedPage {}
    tabbedSheet hparsed hopens
  simp only at hround
  rw [hrepairs, hrepaired] at hround
  obtain ⟨hnone, -, hsame⟩ := hround pageTrees.parser fun _ => rfl
  refine ⟨hparsed, hopens, hrepairs, hrepaired, hnone, hregions, ?_⟩
  rw [hsame]
  change d.regions.map _ = _
  rw [hregions, Option.map_some, List.map_singleton, hspan]

end StyleIndentation
end WebLint
