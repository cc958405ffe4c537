import WebLint.Proofs.Path.Names

/-!
# Paths put together

A path may be put together from components, each pushed behind those before it.  When these are
the first components of some path, the path that is put together has them and no other ones,
however the first path was spelled.

What is proved here:

* `pairwise_components` — only the first component of a path may be the root or a `.`;
* `exists_mem_components` — no character of a path is lost in its components but slashes and
  dots;
* `components_push` — what a path followed by one more component is made of;
* `components_foldl_push` — the beginning of a path, put together anew;
* `splitOn_intercalate_spelling`, `eq_intercalate_of_map_ofPart` — joining components with slashes
  and splitting a text into them undo each other.
-/

namespace WebLint
namespace Path

/-! ## Inner components -/

namespace Component

/-- Whether a component is what its text stands for behind a slash: all but the root and a
leading `.` are. -/
structure IsInner (c : Component) : Prop where
  /-- The text is one part. -/
  slash : '/' ∉ c.spelling.toList
  /-- The part stands for the component. -/
  part : ofPart c.spelling.toList = some c

/-- A part is the text of the component it stands for. -/
theorem toList_spelling_of_ofPart {part : List Char} {c : Component} (h : ofPart part = some c) :
    c.spelling.toList = part := by
  unfold ofPart at h
  split at h
  · cases h
  · split at h
    · rename_i hdots
      obtain rfl := Option.some.inj h
      exact hdots.symm
    · obtain rfl := Option.some.inj h
      exact String.toList_ofList

/-- A part with a character other than a dot stands for a component. -/
theorem ofPart_of_mem {part : List Char} {x : Char} (hx : x ∈ part) (hdot : x ≠ '.') :
    ofPart part = some (.name (String.ofList part)) := by
  rw [ofPart, if_neg, if_neg]
  · rintro rfl
    simp [hdot] at hx
  · rintro (rfl | rfl) <;> simp [hdot] at hx

theorem isInner_of_mem {text : List Char} {c : Component}
    (h : c ∈ (splitSlash text).filterMap ofPart) : c.IsInner := by
  obtain ⟨part, hpart, hc⟩ := List.mem_filterMap.1 h
  have htext := toList_spelling_of_ofPart hc
  exact ⟨htext ▸ not_mem_of_mem_splitSlash hpart, htext ▸ hc⟩

end Component

/-! ## The components of a path -/

section

variable {p : Path} {c : Component}

/-- A path has inner components, and in front of them the root, a `.`, or nothing. -/
theorem exists_components (p : Path) : ∃ front inner : List Component,
    p.components = front ++ inner ∧ (front = [] ∨ front = [.root] ∨ front = [.here]) ∧
      ∀ c ∈ inner, c.IsInner := by
  by_cases hnil : p.spelling.toList = []
  · exact ⟨[], [], by rw [components, hnil]; rfl, .inl rfl, by simp⟩
  by_cases hroot : ∃ rest, p.spelling.toList = '/' :: rest
  · obtain ⟨rest, hrest⟩ := hroot
    exact ⟨[.root], _, components_of_root hrest, .inr (.inl rfl), fun c => Component.isInner_of_mem⟩
  · refine ⟨_, _, components_of_not_root hnil (not_exists.1 hroot), ?_,
      fun c => Component.isInner_of_mem⟩
    split
    · exact .inr (.inr rfl)
    · exact .inl rfl

/-- Only the first component of a path may be the root or a `.`. -/
theorem pairwise_components (p : Path) : p.components.Pairwise fun _ d => d.IsInner := by
  obtain ⟨front, inner, hp, hfront, hinner⟩ := exists_components p
  have hbehind : inner.Pairwise fun _ d => d.IsInner :=
    List.pairwise_iff_forall_sublist.2 fun h => hinner _ (h.subset (by simp))
  rw [hp]
  rcases hfront with rfl | rfl | rfl
  · exact hbehind
  · exact List.pairwise_cons.2 ⟨hinner, hbehind⟩
  · exact List.pairwise_cons.2 ⟨hinner, hbehind⟩

theorem eq_or_isInner (h : c ∈ p.components) : c = .root ∨ c = .here ∨ c.IsInner := by
  obtain ⟨front, inner, hp, hfront, hinner⟩ := exists_components p
  rw [hp, List.mem_append] at h
  rcases h with h | h
  · rcases hfront with rfl | rfl | rfl
    · cases h
    · exact .inl (List.mem_singleton.1 h)
    · exact .inr (.inl (List.mem_singleton.1 h))
  · exact .inr (.inr (hinner c h))

/-- The text of an inner component is a path that is made of it. -/
theorem Component.IsInner.components_spelling (h : c.IsInner) : components ⟨c.spelling⟩ = [c] := by
  have hnil : c.spelling.toList ≠ [] := fun hnil => by simpa [hnil, ofPart] using h.part
  have hhere : c.spelling.toList ≠ ['.'] := fun hhere => by simpa [hhere, ofPart] using h.part
  have hroot : ∀ rest, c.spelling.toList ≠ '/' :: rest := fun rest heq =>
    h.slash (heq ▸ List.mem_cons_self)
  rw [components_of_not_root (p := ⟨c.spelling⟩) hnil hroot, splitSlash_of_not_mem h.slash]
  simp [hhere, h.part]

/-- So is the text of any component that stands in a path. -/
theorem components_spelling (h : c ∈ p.components) : components ⟨c.spelling⟩ = [c] := by
  rcases eq_or_isInner h with rfl | rfl | h
  · rfl
  · rfl
  · exact h.components_spelling

theorem splitSlash_ne_nil (text : List Char) : splitSlash text ≠ [] :=
  splitSlash_eq_splitOn text ▸ List.splitOn_ne_nil '/' text

/-- A character that is no slash stands in one of the parts between slashes. -/
theorem exists_mem_splitSlash {text : List Char} {x : Char} (hx : x ∈ text) (hslash : x ≠ '/') :
    ∃ part ∈ splitSlash text, x ∈ part := by
  induction text with
  | nil => cases hx
  | cons c text ih =>
    rw [splitSlash_eq_splitOn, List.splitOn_cons_eq_if_modifyHead, ← splitSlash_eq_splitOn]
    by_cases hc : c = '/'
    · obtain ⟨part, hpart, hxpart⟩ := ih ((List.mem_cons.1 hx).resolve_left (hc ▸ hslash))
      exact ⟨part, by simp [hc, hpart], hxpart⟩
    · rw [if_neg fun h => hc (beq_iff_eq.1 h)]
      cases hparts : splitSlash text with
      | nil => exact absurd hparts (splitSlash_ne_nil text)
      | cons first parts =>
        rw [hparts] at ih
        rcases List.mem_cons.1 hx with rfl | hx
        · exact ⟨x :: first, by simp, List.mem_cons_self⟩
        · obtain ⟨part, hpart, hxpart⟩ := ih hx
          rcases List.mem_cons.1 hpart with rfl | hpart
          · exact ⟨c :: part, by simp, List.mem_cons_of_mem c hxpart⟩
          · exact ⟨part, by simp [hpart], hxpart⟩

/-- Only slashes and dots of a path are in none of its components. -/
theorem exists_mem_components {x : Char} (hx : x ∈ p.spelling.toList) (hslash : x ≠ '/')
    (hdot : x ≠ '.') : ∃ c ∈ p.components, x ∈ c.spelling.toList := by
  have hparts : ∀ text : List Char, x ∈ text →
      ∃ c ∈ (splitSlash text).filterMap Component.ofPart, x ∈ c.spelling.toList := by
    intro text hmem
    obtain ⟨part, hpart, hxpart⟩ := exists_mem_splitSlash hmem hslash
    have hname := Component.ofPart_of_mem hxpart hdot
    exact ⟨_, List.mem_filterMap.2 ⟨part, hpart, hname⟩,
      by rwa [Component.toList_spelling_of_ofPart hname]⟩
  by_cases hroot : ∃ rest, p.spelling.toList = '/' :: rest
  · obtain ⟨rest, hrest⟩ := hroot
    rw [hrest, List.mem_cons] at hx
    obtain ⟨c, hc, hxc⟩ := hparts rest (hx.resolve_left hslash)
    exact ⟨c, components_of_root hrest ▸ List.mem_cons_of_mem _ hc, hxc⟩
  · obtain ⟨c, hc, hxc⟩ := hparts _ hx
    refine ⟨c, ?_, hxc⟩
    rw [components_of_not_root (List.ne_nil_of_mem hx) (not_exists.1 hroot)]
    exact List.mem_append_right _ hc

end

/-! ## Pushing -/

section

variable {p q : Path} {c : Component} {cs : List Component}

/-- What stands behind a slash is appended to the components. -/
theorem components_of_append_slash {rest : List Char} (hnil : p.spelling.toList ≠ [])
    (h : q.spelling.toList = p.spelling.toList ++ '/' :: rest) :
    q.components = p.components ++ (splitSlash rest).filterMap Component.ofPart := by
  have hsplit : ∀ text : List Char,
      splitSlash (text ++ '/' :: rest) = splitSlash text ++ splitSlash rest := by
    simp [splitSlash_eq_splitOn, List.splitOn_append_cons_self]
  by_cases hroot : ∃ text, p.spelling.toList = '/' :: text
  · obtain ⟨text, htext⟩ := hroot
    rw [htext, List.cons_append] at h
    rw [components_of_root h, components_of_root htext, hsplit, List.filterMap_append,
      List.cons_append]
  · have hroot' : ∀ text, q.spelling.toList ≠ '/' :: text := by
      intro text htext
      obtain ⟨x, front, hfront⟩ := List.exists_cons_of_ne_nil hnil
      rw [h, hfront, List.cons_append, List.cons.injEq] at htext
      exact hroot ⟨front, htext.1 ▸ hfront⟩
    have hhead : (splitSlash p.spelling.toList ++ splitSlash rest).head? =
        (splitSlash p.spelling.toList).head? := by
      cases hparts : splitSlash p.spelling.toList with
      | nil => exact absurd hparts (splitSlash_ne_nil _)
      | cons part parts => rfl
    rw [components_of_not_root (by simp [h]) hroot', components_of_not_root hnil
      (not_exists.1 hroot), h, hsplit, hhead, List.filterMap_append, List.append_assoc]

/-- So is what stands behind a path that ends with a slash. -/
theorem components_of_append {rest : List Char} (hlast : p.spelling.toList.getLast? = some '/')
    (h : q.spelling.toList = p.spelling.toList ++ rest) :
    q.components = p.components ++ (splitSlash rest).filterMap Component.ofPart := by
  obtain ⟨text, htext⟩ := List.getLast?_eq_some_iff.1 hlast
  rw [htext, List.append_assoc, List.singleton_append] at h
  by_cases hnil : text = []
  · rw [hnil, List.nil_append] at h htext
    rw [components_of_root h, components_of_root htext]
    rfl
  · -- both are a path without the last slash, followed by a slash
    have hfront : (⟨String.ofList text⟩ : Path).spelling.toList = text := String.toList_ofList
    rw [← hfront] at hnil h htext
    rw [components_of_append_slash hnil h, components_of_append_slash hnil htext]
    simp [splitSlash, Component.ofPart]

/-- A path followed by an inner component has this one more. -/
theorem components_push (p : Path) (hc : c.IsInner) :
    (p.push c).components = p.components ++ [c] := by
  have hpart : (splitSlash c.spelling.toList).filterMap Component.ofPart = [c] := by
    rw [splitSlash_of_not_mem hc.slash]
    simp [hc.part]
  have hroot : c ≠ .root := by
    rintro rfl
    exact absurd hc.slash (by decide)
  rw [push]
  split
  · rename_i hempty
    have hp : p = ⟨""⟩ := congrArg Path.mk (hempty.resolve_left hroot)
    rw [hc.components_spelling, hp]
    rfl
  rename_i hempty
  split
  · rename_i hlast
    have htext : (⟨p.spelling ++ c.spelling⟩ : Path).spelling.toList =
        p.spelling.toList ++ c.spelling.toList := String.toList_append
    rw [components_of_append hlast htext, hpart]
  · have hnil : p.spelling.toList ≠ [] := by simpa using (not_or.1 hempty).2
    have htext : (⟨p.spelling ++ "/" ++ c.spelling⟩ : Path).spelling.toList =
        p.spelling.toList ++ '/' :: c.spelling.toList := by simp
    rw [components_of_append_slash hnil htext, hpart]

theorem components_foldl_push_inner (p : Path) (h : ∀ c ∈ cs, c.IsInner) :
    (cs.foldl push p).components = p.components ++ cs := by
  induction cs generalizing p with
  | nil => simp
  | cons c cs ih =>
    rw [List.foldl_cons, ih (p.push c) fun d hd => h d (List.mem_cons_of_mem c hd),
      components_push p (h c List.mem_cons_self), List.append_assoc, List.singleton_append]

/-- The components a path begins with make a path that has no other ones. -/
theorem components_foldl_push {rest : List Component} (h : p.components = cs ++ rest) :
    (cs.foldl push ⟨""⟩).components = cs := by
  cases cs with
  | nil => rfl
  | cons c cs =>
    have hfirst : components ⟨c.spelling⟩ = [c] :=
      components_spelling (h ▸ List.mem_append_left _ List.mem_cons_self)
    have hinner : ∀ d ∈ cs, d.IsInner := by
      have hpairs := p.pairwise_components
      rw [h, List.cons_append, List.pairwise_cons] at hpairs
      exact fun d hd => hpairs.1 d (List.mem_append_left _ hd)
    have hempty : push ⟨""⟩ c = ⟨c.spelling⟩ := if_pos (.inr rfl)
    rw [List.foldl_cons, hempty, components_foldl_push_inner _ hinner, hfirst,
      List.singleton_append]

/-! ## Joining -/

/-- Inner components joined by slashes are split into their texts. -/
theorem splitOn_intercalate_spelling (hnil : cs ≠ []) (h : ∀ c ∈ cs, c.IsInner) :
    ("/".intercalate (cs.map Component.spelling)).toList.splitOn '/' =
      cs.map fun c => c.spelling.toList := by
  rw [String.toList_intercalate, List.map_map]
  refine List.splitOn_intercalate '/' (fun part hpart => ?_) (by simpa using hnil)
  obtain ⟨c, hc, rfl⟩ := List.mem_map.1 hpart
  exact (h c hc).slash

/-- Parts that stand for components are their texts. -/
theorem eq_map_of_map_ofPart {parts : List (List Char)}
    (h : parts.map Component.ofPart = cs.map some) : parts = cs.map fun c => c.spelling.toList := by
  induction parts generalizing cs with
  | nil =>
    rw [List.map_eq_nil_iff.1 h.symm]
    rfl
  | cons part parts ih =>
    cases cs with
    | nil => cases h
    | cons c cs =>
      obtain ⟨hc, hcs⟩ := List.cons.inj h
      rw [List.map_cons, ← ih hcs, Component.toList_spelling_of_ofPart hc]

/-- A text whose parts stand for components is these components joined by slashes. -/
theorem eq_intercalate_of_map_ofPart {text : String}
    (h : (text.toList.splitOn '/').map Component.ofPart = cs.map some) :
    text = "/".intercalate (cs.map Component.spelling) := by
  rw [← String.toList_inj, String.toList_intercalate, List.map_map]
  calc text.toList
    _ = ['/'].intercalate (text.toList.splitOn '/') := (List.intercalate_splitOn '/').symm
    _ = ['/'].intercalate (cs.map fun c => c.spelling.toList) :=
      congrArg (['/'].intercalate) (eq_map_of_map_ofPart h)

end

end Path
end WebLint
