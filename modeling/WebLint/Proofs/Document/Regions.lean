import WebLint.Proofs.Document
import WebLint.Proofs.Fixing.Regions
import WebLint.Proofs.Tree.Constructs

/-!
# Which regions markup has

The checkers of the two languages read a page at the same time, and each of them rewrites what
it has found.  What they read must not meet, and nothing that a browser takes for a stylesheet
or a script may be passed over, however broken the page is: elements may stand in each other in
any way and lack their tags.

What is proved here:

* `Region.ofMarkup_eq` — the regions of markup are the raw texts of its outermost elements,
  one region for each of them, in the order of the page;
* `Region.holdsCode_of_runs` — a script that a browser runs is not passed over;
* `Region.regions_of_isPlaced` — the regions of both languages in any well-formed tree.
-/

namespace WebLint

/-! ## Trimming -/

namespace Text

variable {p : Char → Bool} {w : Text} {q : Char}

/-- Nothing is trimmed off a text without the characters in question. -/
theorem trimBoth_eq_self (h : ∀ c ∈ w, p c = false) : trimBoth p w = w := by
  have hself : ∀ v : Text, (∀ c ∈ v, p c = false) → v.dropWhile p = v := by
    intro v hv
    cases v with
    | nil => rfl
    | cons c v => exact List.dropWhile_cons_of_neg (by simp [hv c List.mem_cons_self])
  rw [trimBoth, hself w h, hself _ fun c hc => h c (List.mem_reverse.1 hc), List.reverse_reverse]

/-- One such character at each end is trimmed off. -/
theorem trimBoth_cons_append (hq : p q = true) (h : ∀ c ∈ w, p c = false) :
    trimBoth p (q :: w ++ [q]) = w := by
  rw [trimBoth, List.cons_append, List.dropWhile_cons_of_pos hq]
  cases w with
  | nil => simp [hq]
  | cons c w =>
    have hc : p c = false := h c List.mem_cons_self
    rw [List.cons_append, List.dropWhile_cons_of_neg (by simp [hc]), ← List.cons_append,
      List.reverse_append, List.reverse_singleton, List.singleton_append,
      List.dropWhile_cons_of_pos hq]
    have hrest := trimBoth_eq_self h
    rwa [trimBoth, List.dropWhile_cons_of_neg (by simp [hc])] at hrest

end Text

namespace Document

/-- The ranges a document is parsed in are those of its regions. -/
theorem ranges_getD (d : Document) :
    d.ranges.getD [] = (d.regions.getD []).map (·.span) := by
  rw [ranges]
  cases d.regions with
  | none => rfl
  | some regions => cases regions <;> rfl

end Document

namespace Region

open Cursor

variable {t : Text} {language : Language}

/-! ## Types of scripts -/

/-- Whether a character is a quote, or white space. -/
def isOuter (c : Char) : Bool := c == '\"' || c == '\'' || Text.isSpace c

/-- The attributes in the tag that opens an element. -/
def attributes (element : Node) : List Node :=
  (element.namedChildren.filter (·.kind == "start_tag")).flatMap fun tag =>
    tag.namedChildren.filter (·.kind == "attribute")

/-- Whether a value of an attribute is written so: bare or in quotes of either kind. -/
def IsWritten (word value : Text) : Prop :=
  value = word ∨ ∃ q ∈ ['\"', '\''], value = q :: word ++ [q]

/-- Whether a browser runs the code in an element by its first `type` attribute, if there is
one with a value: it is empty or a type of scripts, in any case. -/
def Runs (t : Text) (element : Node) : Prop :=
  ∀ typing, (attributes element).find? (isTypeAttribute t) = some typing →
    ∀ value, typing.namedChildren[1]? = some value →
      ∃ word, IsWritten word (value.text t) ∧ (word = [] ∨ word.toLower ∈ scriptTypes)

/-- Small letters are no quotes and no white space, and neither are their capitals. -/
theorem isOuter_of_toLower {c : Char} (h : isOuter c.toLower = false) : isOuter c = false := by
  by_cases hcapital : 65 ≤ c.toNat ∧ c.toNat ≤ 90
  · obtain ⟨hlow, hhigh⟩ := hcapital
    have hquote : c ≠ '\"' := by rintro rfl; exact absurd hlow (by decide)
    have hquote' : c ≠ '\'' := by rintro rfl; exact absurd hlow (by decide)
    simp only [isOuter, Text.isSpace, Bool.or_eq_false_iff, Bool.and_eq_false_iff,
      beq_eq_false_iff_ne, decide_eq_false_iff_not]
    refine ⟨⟨hquote, hquote'⟩, ?_⟩
    omega
  · have hself : c.toLower = c := dif_neg fun hupper => hcapital hupper
    rwa [hself] at h

/-- The types of scripts hold no quotes and no white space. -/
theorem isOuter_of_mem_scriptTypes {word : Text} (h : word.toLower ∈ scriptTypes) {c : Char}
    (hc : c ∈ word) : isOuter c = false := by
  have hsmall : (scriptTypes.all fun ty => ty.all fun d => !isOuter d) = true := by decide +kernel
  have hletter := List.all_eq_true.1 (List.all_eq_true.1 hsmall _ h) _ (List.mem_map_of_mem hc)
  exact isOuter_of_toLower (by simpa using hletter)

/-- The value of an attribute that is written so. -/
theorem attributeValue_of_isWritten {name value : Node} {parts : List Node} {word : Text}
    (hwritten : IsWritten word (value.text t)) (hword : ∀ c ∈ word, isOuter c = false) :
    attributeValue t (name :: value :: parts) = word.toLower := by
  have hquote : ∀ c ∈ word, (c == '\"' || c == '\'') = false := fun c hc =>
    (Bool.or_eq_false_iff.1 (hword c hc)).1
  have hspace : ∀ c ∈ word, Text.isSpace c = false := fun c hc =>
    (Bool.or_eq_false_iff.1 (hword c hc)).2
  have hunquoted : Text.trimBoth (fun c => c == '\"' || c == '\'') (value.text t) = word := by
    rcases hwritten with hbare | ⟨q, hq, hquoted⟩
    · rw [hbare]
      exact Text.trimBoth_eq_self hquote
    · rw [hquoted]
      refine Text.trimBoth_cons_append ?_ hquote
      simpa using hq
  rw [attributeValue, hunquoted, Text.trim, Text.trimBoth_eq_self hspace]

theorem find?_filter_attribute (ns : List Node) :
    (ns.filter (·.kind == "attribute")).find? (isTypeAttribute t) =
      ns.find? (isTypeAttribute t) := by
  rw [List.find?_filter]
  refine congrArg (List.find? · ns) (funext fun n => ?_)
  by_cases hkind : n.kind = "attribute" <;> simp [isTypeAttribute, hkind]

/-- A script that a browser runs is not passed over. -/
theorem holdsCode_of_runs {element : Node} (h : Runs t element) : holdsCode t element = true := by
  rw [holdsCode, Bool.or_eq_true]
  refine Or.inr ?_
  cases hchildren : element.namedChildren with
  | nil => rfl
  | cons tag rest =>
    by_cases htag : tag.kind = "start_tag"
    swap
    · simp [htag]
    cases htyping : tag.namedChildren.find? (isTypeAttribute t) with
    | none => simp [htyping]
    | some typing =>
      have hfirst : (attributes element).find? (isTypeAttribute t) = some typing := by
        rw [attributes, hchildren, List.filter_cons_of_pos (by simp [htag]), List.flatMap_cons,
          List.find?_append, find?_filter_attribute, htyping]
        rfl
      suffices hvalue : attributeValue t typing.namedChildren = [] ∨
          attributeValue t typing.namedChildren ∈ scriptTypes by
        simpa [htag, htyping, List.isEmpty_iff] using hvalue
      rcases hparts : typing.namedChildren with _ | ⟨name, _ | ⟨value, parts⟩⟩
      · exact Or.inl rfl
      · exact Or.inl rfl
      · obtain ⟨word, hwritten, hword⟩ := h typing hfirst value (by rw [hparts]; rfl)
        have houter : ∀ c ∈ word, isOuter c = false := fun c hc => by
          rcases hword with rfl | hword
          · cases hc
          · exact isOuter_of_mem_scriptTypes hword hc
        rw [attributeValue_of_isWritten hwritten houter]
        exact hword.imp (fun hnil => by rw [hnil]; rfl) id

/-! ## Raw texts -/

/-- Whether a place is directly in an element of a language, and that is not itself in
another one. -/
def IsDirectlyIn (language : Language) (element : Node) (c : Cursor) : Prop :=
  element.kind = elementKind language ∧
    ∃ outside, c.ancestors = element :: outside ∧ ∀ a ∈ outside, a.kind ≠ elementKind language

/-- Whether a place holds code of a language: it is a raw text directly in an outermost
element, and of scripts the element is one that a browser runs. -/
def IsCode (t : Text) (language : Language) (c : Cursor) : Prop :=
  c.node.kind = "raw_text" ∧
    ∃ element, IsDirectlyIn language element c ∧ (language = .script → Runs t element)

/-- Whether the search for a language stops at a place to take it as a region. -/
def isSource (t : Text) (language : Language) (c : Cursor) : Bool :=
  c.node.kind == "raw_text" &&
    match c.ancestors with
    | [] => false
    | element :: outside =>
      element.kind == elementKind language && outside.all (·.kind != elementKind language) &&
        holdsCode t element

/-- The region a raw text makes. -/
def ofRaw (t : Text) (c : Cursor) : Region := ⟨c.node.span, firstIndent (c.node.text t)⟩

theorem isSource_iff {c : Cursor} : isSource t language c = true ↔
    c.node.kind = "raw_text" ∧
      ∃ element, IsDirectlyIn language element c ∧ holdsCode t element = true := by
  unfold isSource IsDirectlyIn
  cases c.ancestors with
  | nil => simp
  | cons element outside => simp [and_assoc]

theorem isSource_of_isCode {c : Cursor} (h : IsCode t language c) :
    isSource t language c = true := by
  obtain ⟨hkind, element, hin, hruns⟩ := h
  refine isSource_iff.2 ⟨hkind, element, hin, ?_⟩
  cases language with
  | style =>
    have hstyle : element.kind = "style_element" := hin.1
    rw [holdsCode, hstyle]
    rfl
  | script => exact holdsCode_of_runs (hruns rfl)

/-! ## The search -/

section

variable {c d : Cursor}

/-- What is not in an element of the language is no source. -/
theorem isSource_of_ancestors (h : ∀ a ∈ c.ancestors, a.kind ≠ elementKind language) :
    isSource t language c = false := by
  refine Bool.eq_false_iff.2 fun hsource => ?_
  obtain ⟨-, element, ⟨hkind, outside, hancestors, -⟩, -⟩ := isSource_iff.1 hsource
  refine h element ?_ hkind
  rw [hancestors]
  exact List.mem_cons_self

/-- Whether a child of an outermost element is a source. -/
theorem isSource_of_mem_children (hkind : c.node.kind = elementKind language)
    (houtside : ∀ a ∈ c.ancestors, a.kind ≠ elementKind language) (hd : d ∈ c.children) :
    isSource t language d = (d.node.kind == "raw_text" && holdsCode t c.node) := by
  have hall : c.ancestors.all (·.kind != elementKind language) = true :=
    List.all_eq_true.2 fun a ha => bne_iff_ne.2 (houtside a ha)
  rw [isSource, ancestors_of_mem_children hd]
  simp only [hkind, hall, beq_self_eq_true, Bool.true_and]

/-- Of what is below a child of an element, no more than the child is a source. -/
theorem filter_isSource_constructs (hkind : c.node.kind = elementKind language)
    (hd : d ∈ c.children) :
    d.constructs.filter (isSource t language) = [d].filter (isSource t language) := by
  have hnodup := nodup_constructs d
  rw [constructs_eq] at hnodup ⊢
  rw [← List.singleton_append, List.filter_append, List.append_right_eq_self,
    List.filter_eq_nil_iff]
  intro e he hsource
  have hall : e ∈ d.all := (sublist_all d).subset (by
    rw [constructs_eq]
    exact List.mem_cons_of_mem d he)
  rcases exists_ancestors_of_mem_children hd hall with rfl | ⟨a, outside, hancestors, hc⟩
  · exact (List.nodup_cons.1 hnodup).1 he
  · obtain ⟨-, element, ⟨-, outside', hancestors', houtside⟩, -⟩ := isSource_iff.1 hsource
    rw [hancestors] at hancestors'
    obtain ⟨rfl, rfl⟩ := List.cons.inj hancestors'
    exact houtside _ hc hkind

/-- The regions of markup are its sources, in the order of the page. -/
theorem ofMarkup_eq (h : ∀ a ∈ c.ancestors, a.kind ≠ elementKind language) :
    ofMarkup t language c.node = (c.constructs.filter (isSource t language)).map (ofRaw t) := by
  induction c using Cursor.induction with
  | step c ih =>
    rw [constructs_eq, List.filter_cons_of_neg (by simp [isSource_of_ancestors h]),
      List.filter_flatMap]
    by_cases hkind : c.node.kind = elementKind language
    · have hchildren : ((c.children.filter (·.node.isNamed)).flatMap fun d =>
          d.constructs.filter (isSource t language)) =
          (c.children.filter (·.node.isNamed)).filter fun d =>
            d.node.kind == "raw_text" && holdsCode t c.node := by
        rw [List.flatMap_congr fun d hd =>
            filter_isSource_constructs hkind (List.mem_filter.1 hd).1, ← List.filter_flatMap,
          List.flatMap_singleton']
        exact List.filter_congr fun d hd =>
          isSource_of_mem_children hkind h (List.mem_filter.1 hd).1
      rw [ofMarkup_of_kind hkind, hchildren, ofElement, ← map_node_namedChildren]
      cases holdsCode t c.node with
      | true =>
        simp only [if_pos, Bool.and_true, List.filter_map, List.map_map]
        rfl
      | false => simp
    · rw [ofMarkup_of_kind_ne hkind, ← map_node_namedChildren, List.flatMap_map,
        List.map_flatMap]
      refine List.flatMap_congr fun d hd => ih d (List.mem_filter.1 hd).1 fun a ha => ?_
      rw [ancestors_of_mem_children (List.mem_filter.1 hd).1] at ha
      rcases List.mem_cons.1 ha with rfl | ha
      · exact hkind
      · exact h a ha

end

/-! ## Well-formed markup -/

/-- What the regions of a language in a tree of markup are. -/
structure AreRegions (t : Text) (root : Node) (language : Language) (regions : List Region) :
    Prop where
  /-- Regions lie in the text. -/
  inBounds : ∀ r ∈ regions, r.span.start ≤ r.span.stop ∧ r.span.stop ≤ t.byteLength
  /-- A region ends before the next one starts, or where it does. -/
  inOrder : regions.Pairwise fun r s => r.span.stop ≤ s.span.start
  /-- The regions are those of some places, one region for each of them: raw texts directly in
  outermost elements, among them all that hold code. -/
  perPlace : ∃ places : List Cursor,
    places.Nodup ∧ places.Sublist (ofRoot root).constructs ∧ regions = places.map (ofRaw t) ∧
      (∀ c ∈ places, c.node.kind = "raw_text" ∧ ∃ element, IsDirectlyIn language element c) ∧
      ∀ c ∈ (ofRoot root).constructs, IsCode t language c → c ∈ places

section

variable {root : Node}

/-- The regions of a tree of markup. -/
theorem ofMarkup_eq_ofRoot (root : Node) : ofMarkup t language root =
    ((ofRoot root).constructs.filter (isSource t language)).map (ofRaw t) :=
  ofMarkup_eq (c := ofRoot root) fun _ ha => absurd ha List.not_mem_nil

/-- What a region of markup comes from. -/
theorem exists_source_of_mem_ofMarkup {r : Region} (hr : r ∈ ofMarkup t language root) :
    ∃ c ∈ (ofRoot root).all, isSource t language c = true ∧ r = ofRaw t c := by
  rw [ofMarkup_eq_ofRoot] at hr
  obtain ⟨c, hc, rfl⟩ := List.mem_map.1 hr
  obtain ⟨hconstruct, hsource⟩ := List.mem_filter.1 hc
  exact ⟨c, (sublist_all _).subset hconstruct, hsource, rfl⟩

variable (hplaced : root.IsPlaced t)
  (hleaf : ∀ n ∈ root.preorder, n.kind = "raw_text" → n.children = [])
include hplaced

theorem inBounds_of_isPlaced {r : Region} (hr : r ∈ ofMarkup t language root) :
    r.span.start ≤ r.span.stop ∧ r.span.stop ≤ t.byteLength := by
  obtain ⟨c, hc, -, rfl⟩ := exists_source_of_mem_ofMarkup hr
  have hnode : c.node ∈ root.preorder := node_mem_preorder_of_mem_all hc
  exact ⟨hplaced.ordered _ hnode, Text.le_byteLength_of_isBoundary (hplaced.boundary _ hnode).2⟩

include hleaf

/-- The raw texts of a page follow each other. -/
theorem pairwise_rawTexts : ((ofRoot root).all.filter (·.node.kind == "raw_text")).Pairwise
    fun c d => c.node.stop ≤ d.node.start :=
  pairwise_filter_all hplaced fun c hc hkind =>
    hleaf c.node (node_mem_preorder_of_mem_all hc) (beq_iff_eq.1 hkind)

theorem inOrder_of_isPlaced :
    (ofMarkup t language root).Pairwise fun r s => r.span.stop ≤ s.span.start := by
  rw [ofMarkup_eq_ofRoot, List.pairwise_map]
  have hraw : ((ofRoot root).constructs.filter (isSource t language)).Sublist
      ((ofRoot root).all.filter (·.node.kind == "raw_text")) :=
    ((sublist_all _).filter _).trans (List.monotone_filter_right _ fun c hc =>
      beq_iff_eq.2 (isSource_iff.1 hc).1)
  exact (pairwise_rawTexts hplaced hleaf).sublist hraw

theorem areRegions_ofMarkup : AreRegions t root language (ofMarkup t language root) where
  inBounds _ hr := inBounds_of_isPlaced hplaced hr
  inOrder := inOrder_of_isPlaced hplaced hleaf
  perPlace := by
    refine ⟨_, (nodup_constructs _).filter _, List.filter_sublist, ofMarkup_eq_ofRoot root,
      fun c hc => ?_, fun c hc hcode => List.mem_filter.2 ⟨hc, isSource_of_isCode hcode⟩⟩
    obtain ⟨hkind, element, hin, -⟩ := isSource_iff.1 (List.mem_filter.1 hc).2
    exact ⟨hkind, element, hin⟩

/-- The regions of the two languages do not meet. -/
theorem apart_of_isPlaced {r s : Region} (hr : r ∈ ofMarkup t .style root)
    (hs : s ∈ ofMarkup t .script root) :
    r.span.stop ≤ s.span.start ∨ s.span.stop ≤ r.span.start := by
  obtain ⟨c, hc, hsource, rfl⟩ := exists_source_of_mem_ofMarkup hr
  obtain ⟨d, hd, hsource', rfl⟩ := exists_source_of_mem_ofMarkup hs
  obtain ⟨hraw, element, ⟨hkind, outside, hancestors, -⟩, -⟩ := isSource_iff.1 hsource
  obtain ⟨hraw', element', ⟨hkind', outside', hancestors', -⟩, -⟩ := isSource_iff.1 hsource'
  -- one place is not directly in elements of both languages
  have hne : c ≠ d := by
    rintro rfl
    rw [hancestors] at hancestors'
    obtain ⟨rfl, -⟩ := List.cons.inj hancestors'
    rw [hkind] at hkind'
    exact absurd hkind' (by decide)
  have hsymm : Std.Symm fun c d : Cursor =>
      c.node.stop ≤ d.node.start ∨ d.node.stop ≤ c.node.start := ⟨fun _ _ h => h.symm⟩
  have hpairwise : ((ofRoot root).all.filter (·.node.kind == "raw_text")).Pairwise fun c d =>
      c.node.stop ≤ d.node.start ∨ d.node.stop ≤ c.node.start :=
    (pairwise_rawTexts hplaced hleaf).imp Or.inl
  exact hpairwise.forall (List.mem_filter.2 ⟨hc, beq_iff_eq.2 hraw⟩)
    (List.mem_filter.2 ⟨hd, beq_iff_eq.2 hraw'⟩) hne

/-- A parser is never handed regions it refuses. -/
theorem parse_ofFile_eq_malformed {parser : Parser} {file : Path} {e : Failure}
    (hroot : (parser .html t none).root = root)
    (h : (Document.ofFile parser file t language).parse parser = .error e) :
    e = .malformed file := by
  have horder : inOrder 0 ((Document.ofFile parser file t language).ranges.getD []) = true := by
    rw [Document.ranges_getD, Document.ofFile, hroot]
    split
    · refine inOrder_of_follow (fun _ _ => Nat.zero_le _) (fun s hs => ?_) ?_
      · obtain ⟨r, hr, rfl⟩ := List.mem_map.1 hs
        exact (inBounds_of_isPlaced hplaced hr).1
      · exact List.pairwise_map.2 (inOrder_of_isPlaced hplaced hleaf)
    · rfl
  rw [Document.parse, if_pos horder] at h
  dsimp only at h
  split at h
  · exact (Except.error.inj h).symm
  · cases h

end

/-- **What is read of a page.**  In every well-formed tree, whatever its elements stand in and
whether or not they have tags, the regions of either language lie in the text, in order and
apart, so the parser of the language does not refuse them; those of the one do not meet those
of the other; and each raw text directly in an outermost style element, or in an outermost
script element that a browser runs, makes one region. -/
theorem regions_of_isPlaced (t : Text) (root : Node) (hplaced : root.IsPlaced t)
    (hleaf : ∀ n ∈ root.preorder, n.kind = "raw_text" → n.children = []) :
    (∀ language, AreRegions t root language (ofMarkup t language root)) ∧
      (∀ r ∈ ofMarkup t .style root, ∀ s ∈ ofMarkup t .script root,
        r.span.stop ≤ s.span.start ∨ s.span.stop ≤ r.span.start) ∧
      ∀ (parser : Parser) (file : Path) (language : Language),
        (parser .html t none).root = root →
          ∀ e, (Document.ofFile parser file t language).parse parser = .error e →
            e = .malformed file :=
  ⟨fun _ => areRegions_ofMarkup hplaced hleaf,
    fun _ hr _ hs => apart_of_isPlaced hplaced hleaf hr hs,
    fun _ _ _ hroot _ h => parse_ofFile_eq_malformed hplaced hleaf hroot h⟩

/-! ### A page with a type -/

/-- A page whose script names its type in quotes, and not in small letters. -/
def typedPage : Text := "<style>a\x7b\x7d</style><script type='Module'>b</script>".toList

/-- The script of this page. -/
def typedScript : Node :=
  .construct "script_element" 18 50
    [.construct "start_tag" 18 40
      [.construct "attribute" 26 39
        [.construct "attribute_name" 26 30, .construct "quoted_attribute_value" 31 39]],
     .construct "raw_text" 40 41, .construct "end_tag" 41 50]

/-- The tree of this page. -/
def typedMarkup : Node :=
  .construct "document" 0 50
    [.construct "style_element" 0 18
      [.construct "start_tag" 0 7, .construct "raw_text" 7 10, .construct "end_tag" 10 18],
     typedScript]

/-- A browser runs the script. -/
theorem runs_typedScript : Runs typedPage typedScript := by
  intro typing htyping value hvalue
  have htype : (attributes typedScript).find? (isTypeAttribute typedPage) =
      some (.construct "attribute" 26 39
        [.construct "attribute_name" 26 30, .construct "quoted_attribute_value" 31 39]) :=
    List.find?_cons_of_pos (by decide +kernel)
  obtain rfl := Option.some.inj (htype.symm.trans htyping)
  obtain rfl := Option.some.inj hvalue
  exact ⟨"Module".toList, Or.inr ⟨'\'', by decide +kernel⟩, Or.inr (by decide +kernel)⟩

/-- The place of its code. -/
def typedPlace : Cursor :=
  ⟨.construct "raw_text" 40 41, [⟨typedScript, 1⟩, ⟨typedMarkup, 1⟩]⟩

/-- The regions of the page are the contents of its two elements. -/
theorem regions_typedMarkup :
    typedMarkup.IsPlaced typedPage ∧
      (∀ n ∈ typedMarkup.preorder, n.kind = "raw_text" → n.children = []) ∧
      typedPlace ∈ (ofRoot typedMarkup).constructs ∧ IsCode typedPage .script typedPlace ∧
      ofMarkup typedPage .style typedMarkup = [⟨⟨7, 10⟩, 0⟩] ∧
      AreRegions typedPage typedMarkup .script [⟨⟨40, 41⟩, 0⟩] := by
  have hplaced : typedMarkup.IsPlaced typedPage := by decide +kernel
  have hleaf : ∀ n ∈ typedMarkup.preorder, n.kind = "raw_text" → n.children = [] := by
    decide +kernel
  have hscript : ofMarkup typedPage .script typedMarkup = [⟨⟨40, 41⟩, 0⟩] := by decide +kernel
  have hplace : (ofRoot typedMarkup).constructs[10]? = some typedPlace := rfl
  have hcode : IsCode typedPage .script typedPlace :=
    ⟨rfl, typedScript, ⟨rfl, [typedMarkup], rfl, by decide +kernel⟩, fun _ => runs_typedScript⟩
  refine ⟨hplaced, hleaf, List.mem_of_getElem? hplace, hcode, by decide +kernel, ?_⟩
  rw [← hscript]
  exact (regions_of_isPlaced typedPage typedMarkup hplaced hleaf).1 .script

end Region
end WebLint
