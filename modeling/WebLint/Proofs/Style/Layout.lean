import WebLint.Proofs.Checker.Writes
import WebLint.Proofs.Fixing.Layout
import WebLint.Proofs.Style.Quotes
import WebLint.Proofs.Style.Repairs
import WebLint.Proofs.Style.Spots
import WebLint.Proofs.Tree

/-!
# Repairing a stylesheet changes its layout and its quotes only

The fixes of a stylesheet are found at its spots: each spot that starts a line may
be indented, and the strings of a statement may get other quotes.  No two of them
meet, so one round applies all of them.

What is proved here:

* `StyleIndentation.indents_of_ofNode` — a spot that is indented starts a line;
* `Quotes.clear_indents` — a string does not end among the blanks a line starts
  with;
* `pairwise_clear_violations` — no two fixes of a sheet meet;
* `apart_checkText_style` — what the fixes of a sheet replace.
-/

namespace WebLint

open Fixing

variable {d : Document} {rules : RuleSet} {o : RuleOptions} {root : Node}

/-! ## Indentation -/

namespace StyleIndentation

/-- A node that is indented starts a line, unless it starts with a blank. -/
theorem indents_of_ofNode {spaces depth : Nat} {n : Node} {v : Violation} {f : Fix}
    (hplaced : root.IsPlaced d.text) (hn : n ∈ root.preorder) (hlt : n.start < n.stop)
    (hstart : n.StartsUnblank d.text) (h : ofNode d spaces depth n = some v)
    (hf : v.fix = some f) : v.rule = .indentation ∧ f.Indents d.text ∧ f.stop = n.start := by
  unfold ofNode at h
  simp only at h
  split at h
  · cases h
  rename_i hchecked
  have hblank := (isChecked_iff.1 (by simpa using hchecked)).1
  split at h
  · cases h
  obtain ⟨u, htake, hline, -⟩ := Text.exists_append_lastLine (d.text.takeBytes n.start)
  have hlength := Text.byteLength_takeBytes_of_isBoundary d.text _ (hplaced.boundary n hn).1
  have hsum := congrArg Text.byteLength htake
  rw [Text.byteLength_append, hlength] at hsum
  rw [← Option.some.inj h] at hf ⊢
  rw [← Option.some.inj hf]
  refine ⟨rfl, ⟨⟨u, _, d.text.dropBytes n.start, ?_, ?_, ?_, hline,
    by simpa using hblank, hstart.isBlank_head hplaced hn hlt⟩, _, rfl⟩, rfl⟩
  · rw [← htake, Text.takeBytes_append_dropBytes]
  · change _ = n.start - (lead d n).byteLength
    rw [lead]
    omega
  · change n.start - (lead d n).byteLength + (lead d n).byteLength = n.start
    rw [lead]
    omega

end StyleIndentation

/-! ## Quotes -/

namespace Quotes

/-- Whether a fix puts a string with other delimiters in the place of a string. -/
def Requotes (t : Text) (literal : Node) (f : Fix) : Prop :=
  f.span = literal.span ∧ ∃ (quote : Quote) (inner inner' : Text),
    literal.text t = quote.other.char :: inner ++ [quote.other.char] ∧
      f.content = quote.char :: inner' ++ [quote.char]

variable {t : Text} {quote : Quote} {literal : Node} {f g : Fix}

theorem requotes_of_ofString {v : Violation} (h : ofString t quote literal = some v)
    (hf : v.fix = some f) : v.rule = .stringQuotes ∧ Requotes t literal f := by
  obtain ⟨quoted, hquoted, rfl⟩ := Option.map_eq_some_iff.1 h
  obtain ⟨inner, hinner, hquoted⟩ := Option.bind_eq_some_iff.1 hquoted
  split at hquoted
  · cases hquoted
  · rw [← Option.some.inj hf]
    exact ⟨rfl, rfl, quote, inner, _, inside?_eq_some_iff.1 hinner, (Option.some.inj hquoted).symm⟩

/-- A quoted string is no indentation. -/
theorem Requotes.not_indents (h : Requotes t literal f) : ¬ f.Indents t := by
  rintro ⟨-, width, hcontent⟩
  obtain ⟨-, quote, inner, inner', -, hquoted⟩ := h
  have hmem : quote.char ∈ Indent.spaces width := by
    rw [← hcontent, hquoted]
    simp
  have hspace := List.eq_of_mem_replicate hmem
  cases quote with
  | single => exact absurd hspace (by decide)
  | double => exact absurd hspace (by decide)

/-- A string does not end among the blanks a line starts with. -/
theorem Requotes.clear_indents (hplaced : root.IsPlaced t) (hl : literal ∈ root.preorder)
    (h : Requotes t literal f) (hg : g.Indents t)
    (hapart : literal.stop ≤ g.stop ∨ g.stop ≤ literal.start) : f.Clear t g := by
  have hindents := h.not_indents
  refine ⟨?_, fun hf => absurd hf hindents⟩
  obtain ⟨hspan, quote, inner, inner', hquoted, -⟩ := h
  have hstart : f.start = literal.start := congrArg Span.start hspan
  have hstop : f.stop = literal.stop := congrArg Span.stop hspan
  rcases hapart with hle | hle
  · refine Or.inl (Nat.le_of_not_lt fun hlt => ?_)
    obtain ⟨hbstart, hbstop⟩ := hplaced.boundary _ hl
    have hordered := hplaced.ordered _ hl
    have hpiece : t.between literal.start literal.stop = literal.text t :=
      (Text.slice_eq_between t hbstart hordered).symm
    have hlast : (t.takeBytes literal.stop).getLast? = some quote.other.char := by
      rw [← Text.takeBytes_append_between t hordered, hpiece, hquoted, ← List.append_assoc,
        List.getLast?_concat]
    have hblank := hg.1.isBlank_getLast hbstop (by omega) hle _ hlast
    cases quote with
    | single => exact absurd hblank (by decide)
    | double => exact absurd hblank (by decide)
  · exact Or.inr (by omega)

end Quotes

/-! ## The fixes of a sheet -/

namespace StyleCheck

/-- Whether the fixes of two violations, if they have one, do not meet. -/
def Clear (t : Text) (v w : Violation) : Prop := ∀ f ∈ v.fix, ∀ g ∈ w.fix, f.Clear t g

/-- Whether a violation, if it has a fix, is one that a spot may have: its fix indents the
spot, or gives one of its strings other quotes. -/
def Spot.Repairs (t : Text) (s : Spot) (v : Violation) : Prop :=
  ∀ f ∈ v.fix, (v.rule = .indentation ∧ f.Indents t ∧ f.stop = s.node.start) ∨
    (v.rule = .stringQuotes ∧ ∃ l ∈ s.literals, Quotes.Requotes t l f)

/-- Whether the spots of a tree cover some bytes and do not start with blanks. -/
def SpotsStand (t : Text) (root : Node) : Prop :=
  ∀ s ∈ spots 0 root.children, s.node.start < s.node.stop ∧ s.node.StartsUnblank t

instance (t : Text) (root : Node) : Decidable (SpotsStand t root) :=
  inferInstanceAs (Decidable (∀ s ∈ spots 0 root.children, _))

theorem mem_of_mem_whenEnabled {rule : Rule} {vs : List Violation} {v : Violation}
    (h : v ∈ whenEnabled rules rule vs) : v ∈ vs := by
  unfold whenEnabled at h
  split at h
  · exact h
  · cases h

theorem pairwise_whenEnabled {R : Violation → Violation → Prop} {rule : Rule}
    {vs : List Violation} (h : vs.Pairwise R) : (whenEnabled rules rule vs).Pairwise R := by
  unfold whenEnabled
  split
  · exact h
  · exact .nil

/-! ### One spot -/

section

variable {n : Node}

/-- A spot that is indented. -/
theorem repairs_of_mem_ofNode (hplaced : root.IsPlaced d.text) {s : Spot}
    (hs : s.node ∈ root.preorder) (hlt : s.node.start < s.node.stop)
    (hstart : s.node.StartsUnblank d.text) {depth : Nat} {v : Violation}
    (hv : v ∈ whenEnabled rules .indentation
      (StyleIndentation.ofNode d o.styleSpaces depth s.node).toList) :
    s.Repairs d.text v := fun _ hf =>
  Or.inl (StyleIndentation.indents_of_ofNode hplaced hs hlt hstart
    (Option.mem_toList.1 (mem_of_mem_whenEnabled hv)) hf)

/-- The strings of a statement that get other quotes, which do not meet. -/
theorem pairwise_clear_strings (hplaced : root.IsPlaced d.text) (hn : n ∈ root.preorder) :
    ((strings n).filterMap (Quotes.ofString d.text o.quote)).Pairwise (Clear d.text) := by
  rw [List.pairwise_filterMap]
  refine (pairwise_strings (hplaced.below hn)).imp fun {l r} hlr v hv w hw f hf g hg => ?_
  obtain ⟨-, hf⟩ := Quotes.requotes_of_ofString hv hf
  obtain ⟨-, hg⟩ := Quotes.requotes_of_ofString hw hg
  refine ⟨Or.inl ?_, fun hindents => absurd hindents hf.not_indents⟩
  rw [show f.stop = l.stop from congrArg Span.stop hf.1,
    show g.start = r.start from congrArg Span.start hg.1]
  exact hlr

end

/-- The fixes at a spot, which do not meet. -/
theorem pairwise_clear_violationsAt (hplaced : root.IsPlaced d.text) {s : Spot}
    (hs : s.node ∈ root.preorder) (hlt : s.node.start < s.node.stop)
    (hstart : s.node.StartsUnblank d.text) :
    (∀ v ∈ violationsAt d rules o s, s.Repairs d.text v) ∧
      (violationsAt d rules o s).Pairwise (Clear d.text) := by
  have hsingle : ∀ {found : Option Violation}, found.toList.Pairwise (Clear d.text) := by
    intro found
    cases found with
    | none => exact .nil
    | some v => exact List.pairwise_singleton _ v
  cases s with
  | brace depth n =>
    exact ⟨fun v hv => repairs_of_mem_ofNode hplaced hs hlt hstart hv, pairwise_whenEnabled hsingle⟩
  | statement depth n =>
    have hvendor : ∀ v ∈ prefixViolations d.text rules n, v.fix = none := fun v hv =>
      VendorPrefix.fix_of_mem_prefixViolations hv
    have hquotes : ∀ v ∈ whenEnabled rules .stringQuotes
        ((strings n).filterMap (Quotes.ofString d.text o.quote)), ∀ f ∈ v.fix,
        v.rule = .stringQuotes ∧ ∃ l ∈ strings n, Quotes.Requotes d.text l f := by
      intro v hv f hf
      obtain ⟨l, hl, hv⟩ := List.mem_filterMap.1 (mem_of_mem_whenEnabled hv)
      obtain ⟨hrule, hrequotes⟩ := Quotes.requotes_of_ofString hv hf
      exact ⟨hrule, l, hl, hrequotes⟩
    rw [violationsAt]
    constructor
    · intro v hv
      rw [List.mem_append, List.mem_append] at hv
      rcases hv with (hv | hv) | hv
      · exact repairs_of_mem_ofNode (s := .statement depth n) hplaced hs hlt hstart hv
      · intro f hf
        rw [hvendor v hv] at hf
        cases hf
      · exact fun f hf => Or.inr (hquotes v hv f hf)
    · rw [List.pairwise_append, List.pairwise_append]
      refine ⟨⟨pairwise_whenEnabled hsingle, List.pairwise_of_forall_mem_list ?_, ?_⟩,
        pairwise_whenEnabled (pairwise_clear_strings hplaced hs), ?_⟩
      · intro v hv w _ f hf
        rw [hvendor v hv] at hf
        cases hf
      · intro v _ w hw f _ g hg
        rw [hvendor w hw] at hg
        cases hg
      · intro v hv w hw f hf g hg
        rcases List.mem_append.1 hv with hv | hv
        · obtain ⟨-, hf, hstop⟩ := StyleIndentation.indents_of_ofNode hplaced hs hlt hstart
            (Option.mem_toList.1 (mem_of_mem_whenEnabled hv)) hf
          obtain ⟨-, l, hl, hg⟩ := hquotes w hw g hg
          have hl := mem_preorder_of_mem_strings hl
          have hle := ((hplaced.below hs).within hl).1
          refine (hg.clear_indents hplaced (Node.mem_preorder_trans hs hl) hf (Or.inr ?_)).symm
          rw [hstop]
          exact hle
        · rw [hvendor v hv] at hf
          cases hf

/-! ### Different spots -/

/-- The fixes of different spots do not meet. -/
theorem Spot.Repairs.clear {t : Text} {s r : Spot} {v w : Violation} (hplaced : root.IsPlaced t)
    (hs : s.node ∈ root.preorder) (hr : r.node ∈ root.preorder) (hsr : s.Before r)
    (hv : s.Repairs t v) (hw : r.Repairs t w) : Clear t v w := by
  have hordered := hplaced.ordered _ hr
  have hwithin : ∀ {l}, l ∈ r.literals → l ∈ root.preorder ∧ r.node.start ≤ l.start ∧
      l.stop ≤ r.node.stop := fun hl =>
    have hl := mem_preorder_of_mem_literals hl
    ⟨Node.mem_preorder_trans hr hl, (hplaced.below hr).within hl⟩
  have hlt := hsr.1
  intro f hf g hg
  rcases hv f hf with ⟨-, hf, hfstop⟩ | ⟨-, l, hl, hf⟩
  · rcases hw g hg with ⟨-, hg, hgstop⟩ | ⟨-, l', hl', hg⟩
    · have hstarts : f.start ≠ g.start := by
        intro heq
        have hstop := hf.1.stop_eq (heq ▸ hg.1)
        omega
      exact ⟨hf.apart hg hstarts, fun _ _ => hstarts⟩
    · obtain ⟨hl', hstart, -⟩ := hwithin hl'
      exact (hg.clear_indents hplaced hl' hf (Or.inr (by omega))).symm
  · have hapart := hsr.2 l hl
    rcases hw g hg with ⟨-, hg, hgstop⟩ | ⟨-, l', hl', hg⟩
    · refine hf.clear_indents hplaced
        (Node.mem_preorder_trans hs (mem_preorder_of_mem_literals hl)) hg ?_
      omega
    · obtain ⟨-, hstart, hstop⟩ := hwithin hl'
      have hfspan : f.start = l.start ∧ f.stop = l.stop :=
        ⟨congrArg Span.start hf.1, congrArg Span.stop hf.1⟩
      have hgspan : g.start = l'.start ∧ g.stop = l'.stop :=
        ⟨congrArg Span.start hg.1, congrArg Span.stop hg.1⟩
      refine ⟨?_, fun hindents => absurd hindents hf.not_indents⟩
      unfold Fix.Apart
      omega

/-- The spots of a sheet lie in its tree. -/
theorem node_mem_preorder_of_mem_spots {s : Spot} (hs : s ∈ spots 0 root.children) :
    s.node ∈ root.preorder := by
  rw [spots_eq_flatMap] at hs
  obtain ⟨c, hc, hs⟩ := List.mem_flatMap.1 hs
  exact Node.mem_preorder_of_child hc (node_mem_preorder.1 hs)

/-- **No two fixes of a sheet meet.**  Each indents a line or gives a string other
quotes. -/
theorem pairwise_clear_violations {parser : Parser} {vs : List Violation}
    (hplaced : root.IsPlaced d.text) (hopen : BlocksOpen root) (hstand : SpotsStand d.text root)
    (h : (violations parser d rules o root).value = .ok vs) :
    (∀ v ∈ vs, ∀ f ∈ v.fix, (v.rule = .indentation ∧ f.Indents d.text) ∨
      (v.rule = .stringQuotes ∧
        ∃ l ∈ root.preorder, l.kind = "string_value" ∧ Quotes.Requotes d.text l f)) ∧
      vs.Pairwise (Clear d.text) := by
  have hat : ∀ s ∈ spots 0 root.children, (∀ v ∈ violationsAt d rules o s, s.Repairs d.text v) ∧
      (violationsAt d rules o s).Pairwise (Clear d.text) := fun s hs =>
    pairwise_clear_violationsAt hplaced (node_mem_preorder_of_mem_spots hs) (hstand s hs).1
      (hstand s hs).2
  unfold violations at h
  rw [Logged.value_bind] at h
  split at h
  · cases h
  rename_i findings _
  have hfindings : ∀ v ∈ findings.map Finding.toViolation, v.fix = none := by
    intro v hv
    obtain ⟨f, -, rfl⟩ := List.mem_map.1 hv
    rfl
  obtain rfl := Except.ok.inj h
  constructor
  · intro v hv f hf
    rcases List.mem_append.1 hv with hv | hv
    · rw [hfindings v hv] at hf
      cases hf
    obtain ⟨s, hs, hv⟩ := List.mem_flatMap.1 hv
    rcases (hat s hs).1 v hv f hf with ⟨hrule, hindents, -⟩ | ⟨hrule, l, hl, hrequotes⟩
    · exact Or.inl ⟨hrule, hindents⟩
    · cases s with
      | brace depth n => cases hl
      | statement depth n =>
        obtain ⟨c, hc, -, hlc, hkind⟩ := exists_of_mem_strings hl
        exact Or.inr ⟨hrule, l, Node.mem_preorder_trans (node_mem_preorder_of_mem_spots hs)
          (Node.mem_preorder_of_child hc hlc), hkind, hrequotes⟩
  · rw [List.pairwise_append, List.pairwise_flatMap]
    refine ⟨List.pairwise_of_forall_mem_list ?_, ⟨fun s hs => (hat s hs).2, ?_⟩, ?_⟩
    · intro v hv w _ f hf
      rw [hfindings v hv] at hf
      cases hf
    · refine (pairwise_spots hplaced hopen fun s hs => (hstand s hs).1).imp_of_mem
        fun {s r} hs hr hsr v hv w hw => ?_
      exact Spot.Repairs.clear hplaced (node_mem_preorder_of_mem_spots hs)
        (node_mem_preorder_of_mem_spots hr) hsr ((hat s hs).1 v hv) ((hat r hr).1 w hw)
    · intro v hv w _ f hf
      rw [hfindings v hv] at hf
      cases hf

end StyleCheck

/-! ## Repairing a sheet -/

namespace Fixing

open Checker

/-- **Repairing a stylesheet changes its layout and its quotes only.**  Whatever the text
of a sheet, alone in its file or in the regions of markup, and whatever tree it has, if
only nodes are placed as a parser places them, statements and braces cover some bytes
and do not start with blanks, and blocks open with a brace: the fixes of what is found do
not overlap, and no two of them indent the same line.  So none is skipped and one round,
which writes the file at most once, applies them all.  The new text is the old one with
other contents in their ranges, which are the blanks some line starts with, and whole
strings. -/
theorem apart_checkText_style (parser : Parser) (plan : Plan) (file : Path) (text : Text)
    (root : Node) (hparse : (style.document parser file text).parse parser = .ok root)
    (hplaced : root.IsPlaced text) (hopen : StyleCheck.BlocksOpen root)
    (hstand : StyleCheck.SpotsStand text root) (found : List Diagnostic)
    (hfound : (style.checkText parser plan file text).value = .ok found) :
    (fixesOf found).Pairwise Fix.Apart ∧
      (found.Pairwise fun x y => x.rule = .indentation → y.rule = .indentation →
        ∀ f ∈ x.fix, ∀ g ∈ y.fix, text.row f.start ≠ text.row g.start) ∧
      (apply (fixesOf found) text).skipped = false ∧
      (∀ fs : Files, fs.read file = .ok text →
        writes file (style.lintFix parser plan file fs).events ≤ 1 ∧
          (style.lintFix parser plan file fs).value.files =
            saved file text (apply (fixesOf found) text).text fs) ∧
      (apply (fixesOf found) text).text =
        refill text 0 ((sort (fixesOf found)).map fun f => (f.span, f.content)) ∧
      ∀ x ∈ found, ∀ f ∈ x.fix, (x.rule = .indentation ∧ f.Indents text) ∨
        (x.rule = .stringQuotes ∧
          ∃ l ∈ root.preorder, l.kind = "string_value" ∧ Quotes.Requotes text l f) := by
  obtain ⟨hkinds, hclear⟩ : (∀ x ∈ found, ∀ f ∈ x.fix,
      (x.rule = .indentation ∧ f.Indents text) ∨ (x.rule = .stringQuotes ∧
        ∃ l ∈ root.preorder, l.kind = "string_value" ∧ Quotes.Requotes text l f)) ∧
      found.Pairwise fun x y => ∀ f ∈ x.fix, ∀ g ∈ y.fix, f.Clear text g := by
    rcases checkText_eq_ok hfound with ⟨-, rfl⟩ | ⟨other, vs, -, hother, hvs, rfl⟩
    · exact ⟨fun x hx => absurd hx List.not_mem_nil, .nil⟩
    · rw [hparse] at hother
      obtain rfl := Except.ok.inj hother
      obtain ⟨hkinds, hclear⟩ := StyleCheck.pairwise_clear_violations
        (d := style.document parser file text) hplaced hopen hstand
          (StyleCheck.analyze_eq_ok_iff.1 hvs).2
      refine ⟨fun x hx f hf => ?_, pairwise_fixes (R := fun _ f _ g => f.Clear text g)
        Fix.Clear.symm hclear⟩
      obtain ⟨v, hv, hrule, hfix⟩ := exists_violation_of_mem hx
      rw [hrule]
      exact hkinds v hv f (hfix f hf)
  have hvalid : ∀ f ∈ fixesOf found, isValid text f = true := by
    intro f hf
    obtain ⟨x, hx, hf⟩ := List.mem_filterMap.1 hf
    rcases hkinds x hx f hf with ⟨-, hindents⟩ | ⟨-, l, hl, -, hrequotes⟩
    · exact hindents.isValid
    · refine isValid_iff.2 ?_
      rw [show f.start = l.start from congrArg Span.start hrequotes.1,
        show f.stop = l.stop from congrArg Span.stop hrequotes.1]
      exact ⟨hplaced.ordered l hl, hplaced.boundary l hl⟩
  have hapart : (fixesOf found).Pairwise Fix.Apart :=
    List.pairwise_filterMap.2 (hclear.imp fun hxy f hf g hg => (hxy f hf g hg).1)
  obtain ⟨hskipped, hround⟩ := lintFix_of_apart (mem_builtin.2 (Or.inl rfl)) hfound hvalid hapart
  have hindents : ∀ x ∈ found, x.rule = .indentation → ∀ f ∈ x.fix, f.Indents text := by
    intro x hx hrule f hf
    rcases hkinds x hx f hf with ⟨-, hindents⟩ | ⟨hquotes, -⟩
    · exact hindents
    · rw [hrule] at hquotes
      cases hquotes
  refine ⟨hapart, ?_, hskipped, hround, ?_, hkinds⟩
  · refine hclear.imp_of_mem fun {x y} hx hy hxy hxrule hyrule f hf g hg => ?_
    have hf' := hindents x hx hxrule f hf
    have hg' := hindents y hy hyrule g hg
    exact hf'.row_ne hg' ((hxy f hf g hg).2 hf' hg')
  · rw [apply_of_apart hvalid hapart]
    rfl

/-! ### A declaration -/

/-- A declaration that is not indented, of a string in double quotes. -/
def flatText : Text := "a\x7b\ncontent:\"x\"\x7d".toList

/-- The tree of this sheet. -/
def flatTree : Node :=
  .construct "stylesheet" 0 15
    [.construct "rule_set" 0 15
      [.construct "selectors" 0 1 [.construct "tag_name" 0 1],
       .construct "block" 1 15
        [.token "\x7b" 1,
         .construct "declaration" 3 14
          [.construct "property_name" 3 10, .token ":" 10, .construct "string_value" 11 14],
         .token "\x7d" 14]]]

/-- The parser that knows this tree. -/
def flatTrees : ParseTable := [⟨.css, flatText, none, ⟨false, flatTree⟩⟩]

/-- The plan to check the layout and the quotes of stylesheets. -/
def flatPlan : Plan :=
  let preset := Preset.setLevel (Preset.setLevel {} .indentation .error) .stringQuotes .error
  ⟨[⟨"a.css"⟩], [], preset.enabledRules, preset, true⟩

/-- The declaration is indented and gets other quotes at once. -/
theorem apart_flatText :
    (style.document flatTrees.parser ⟨"a.css"⟩ flatText).parse flatTrees.parser = .ok flatTree ∧
      flatTree.IsPlaced flatText ∧ StyleCheck.BlocksOpen flatTree ∧
      StyleCheck.SpotsStand flatText flatTree ∧
      ∃ found, (style.checkText flatTrees.parser flatPlan ⟨"a.css"⟩ flatText).value = .ok found ∧
        (fixesOf found).Perm [⟨3, 3, "  ".toList⟩, ⟨11, 14, "'x'".toList⟩] ∧
        (fixesOf found).Pairwise Fix.Apart ∧
        (apply (fixesOf found) flatText).skipped = false := by
  have hparse : (style.document flatTrees.parser ⟨"a.css"⟩ flatText).parse flatTrees.parser =
      .ok flatTree := rfl
  have hplaced : flatTree.IsPlaced flatText := by decide
  have hopen : StyleCheck.BlocksOpen flatTree := by decide
  have hstand : StyleCheck.SpotsStand flatText flatTree := by decide +kernel
  have hfixes : ((style.analysis flatTrees.parser flatPlan
      (style.document flatTrees.parser ⟨"a.css"⟩ flatText) flatTree).toOption.map fun vs =>
        fixesOf (vs.map (complete (style.document flatTrees.parser ⟨"a.css"⟩ flatText)
          flatPlan.preset))) = some [⟨3, 3, "  ".toList⟩, ⟨11, 14, "'x'".toList⟩] := by
    decide +kernel
  obtain ⟨vs, hvs, hfixes⟩ := Option.map_eq_some_iff.1 hfixes
  have hfound := checkText_of_analysis rfl hparse (eq_ok_of_toOption hvs)
  obtain ⟨hapart, -, hskipped, -⟩ := apart_checkText_style _ _ _ _ _ hparse hplaced hopen hstand
    _ hfound
  refine ⟨hparse, hplaced, hopen, hstand, _, hfound, ?_, hapart, hskipped⟩
  rw [← hfixes]
  exact (List.mergeSort_perm _ _).filterMap _

end Fixing
end WebLint
