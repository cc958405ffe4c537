import Mathlib.Data.List.TakeDrop
import WebLint.Discovery
import WebLint.Proofs.Path.Components

/-!
# Globs among the arguments

A glob is walked from the directory that its components lead to up to the first with a special
character, and what is found there is matched against the rest of it.  Directory and pattern are
the whole glob, taken together, and there is only one place to cut it at.

What is proved here:

* `exists_firstSpecial` — a glob has a first component with a special character;
* `IsCut.eq_of_isCut` — a glob can be cut in one way only;
* `FirstSpecial.isCut` — a glob is cut in front of its first special component;
* `splitGlob_loses_nothing` — the directory and the pattern that a glob is split into are its cut.
-/

namespace WebLint
namespace Discovery

variable {arg pattern : String} {root : Path}

/-! ## The first special component -/

theorem hasGlobChar_iff {text : String} : hasGlobChar text = true ↔
    ∃ x ∈ text.toList, x = '*' ∨ x = '?' ∨ x = '[' ∨ x = '\x7b' := by
  simp [hasGlobChar, or_assoc]

/-- The special characters of an argument stand in its components. -/
theorem exists_special (h : hasGlobChar arg = true) :
    ∃ c ∈ Path.components ⟨arg⟩, hasGlobChar c.spelling = true := by
  obtain ⟨x, hx, hspecial⟩ := hasGlobChar_iff.1 h
  obtain ⟨hslash, hdot⟩ : x ≠ '/' ∧ x ≠ '.' := by
    rcases hspecial with rfl | rfl | rfl | rfl <;> decide
  obtain ⟨c, hc, hxc⟩ := Path.exists_mem_components (p := ⟨arg⟩) hx hslash hdot
  exact ⟨c, hc, hasGlobChar_iff.2 ⟨x, hxc, hspecial⟩⟩

/-- Whether a component of a path is the first with a special character. -/
structure FirstSpecial (p : Path) (front : List Path.Component) (c : Path.Component)
    (back : List Path.Component) : Prop where
  /-- The component stands between the others. -/
  whole : p.components = front ++ c :: back
  /-- None of those in front of it holds a special character. -/
  literal : ∀ d ∈ front, hasGlobChar d.spelling = false
  /-- It holds one itself. -/
  special : hasGlobChar c.spelling = true

theorem exists_firstSpecial (h : hasGlobChar arg = true) :
    ∃ front c back, FirstSpecial ⟨arg⟩ front c back := by
  obtain ⟨d, hd, hspecial⟩ := exists_special h
  obtain ⟨c, hc⟩ := Option.isSome_iff_exists.1 <|
    (List.find?_isSome (p := fun c : Path.Component => hasGlobChar c.spelling)).2 ⟨d, hd, hspecial⟩
  obtain ⟨hc, front, back, hwhole, hfront⟩ := List.find?_eq_some_iff_append.1 hc
  exact ⟨front, c, back, hwhole, fun d hd => by simpa using hfront d hd, hc⟩

namespace FirstSpecial

variable {p : Path} {front back : List Path.Component} {c : Path.Component}

/-- The components are split in front of it. -/
theorem splitComponents_eq (h : FirstSpecial p front c back) :
    splitComponents p = (front, c :: back) := by
  have hliteral : ∀ d ∈ front, (!hasGlobChar d.spelling) = true := by simpa using h.literal
  rw [splitComponents, h.whole, List.span_eq_takeWhile_dropWhile,
    List.takeWhile_append_of_pos hliteral, List.dropWhile_append_of_pos hliteral]
  simp [h.special]

theorem ne_root (h : FirstSpecial p front c back) : c ≠ .root := by
  rintro rfl
  exact absurd h.special (by decide)

theorem ne_here (h : FirstSpecial p front c back) : c ≠ .here := by
  rintro rfl
  exact absurd h.special (by decide)

/-- Only in front of it there may be the root or a leading `.`. -/
theorem isInner (h : FirstSpecial p front c back) : ∀ d ∈ c :: back, d.IsInner := by
  have hpairs := p.pairwise_components
  rw [h.whole, List.pairwise_append, List.pairwise_cons] at hpairs
  have hc : c ∈ p.components := h.whole ▸ List.mem_append_right _ List.mem_cons_self
  exact List.forall_mem_cons.2
    ⟨((Path.eq_or_isInner hc).resolve_left h.ne_root).resolve_left h.ne_here, hpairs.2.1.1⟩

end FirstSpecial

/-! ## Cuts -/

/-- Whether an argument starts with its pattern: its first component holds a special
character. -/
def startsWithPattern (arg : String) : Bool :=
  (Path.components ⟨arg⟩).head?.any fun c => hasGlobChar c.spelling

/-- The components that the directory a glob starts in has from the argument.  To an argument
that starts with its pattern the directory is supplied, and has none of them. -/
def ownComponents (arg : String) (root : Path) : List Path.Component :=
  if startsWithPattern arg then [] else root.components

/-- Whether an argument is cut into a directory and a pattern. -/
structure IsCut (arg : String) (root : Path) (pattern : String) : Prop where
  /-- The components of the directory and the parts of the pattern are, in this order, the
  components of the argument. -/
  whole : (ownComponents arg root).map some ++
    (pattern.toList.splitOn '/').map Path.Component.ofPart = (Path.components ⟨arg⟩).map some
  /-- The directory that is supplied is the working directory. -/
  supplied : startsWithPattern arg = true → root = ⟨"."⟩
  /-- No component of the directory holds a special character. -/
  literal : ∀ c ∈ root.components, hasGlobChar c.spelling = false
  /-- The first part of the pattern holds one. -/
  special : ∃ part ∈ (pattern.toList.splitOn '/').head?, hasGlobChar (String.ofList part) = true
  /-- The directory is absolute when the argument is, and only then. -/
  absolute : root.isAbsolute = Path.isAbsolute ⟨arg⟩

namespace IsCut

/-- A cut is made in front of the first component with a special character. -/
theorem exists_firstSpecial (h : IsCut arg root pattern) : ∃ c back,
    FirstSpecial ⟨arg⟩ (ownComponents arg root) c back ∧
      pattern = "/".intercalate ((c :: back).map Path.Component.spelling) := by
  obtain ⟨own, rest, hwhole, hown, hrest⟩ := List.map_eq_append_iff.1 h.whole.symm
  obtain rfl : own = ownComponents arg root := by simpa [List.map_inj_right] using hown
  have hliteral : ∀ d ∈ ownComponents arg root, hasGlobChar d.spelling = false := by
    intro d hd
    rw [ownComponents] at hd
    split at hd
    · cases hd
    · exact h.literal d hd
  obtain ⟨part, hpart, hspecial⟩ := h.special
  obtain ⟨parts, hparts⟩ := List.head?_eq_some_iff.1 hpart
  obtain ⟨c, back, rfl⟩ := List.exists_cons_of_ne_nil fun hnil : rest = [] => by
    simp [hnil, hparts] at hrest
  -- the first component behind the directory is the one that the first part stands for
  have hc : hasGlobChar c.spelling = true := by
    rw [hparts] at hrest
    have htext := Path.Component.toList_spelling_of_ofPart (List.cons.inj hrest).1.symm
    rwa [← htext, String.ofList_toList] at hspecial
  exact ⟨c, back, ⟨hwhole, hliteral, hc⟩, Path.eq_intercalate_of_map_ofPart hrest.symm⟩

/-- An argument can be cut in one way only. -/
theorem eq_of_isCut {root' : Path} {pattern' : String} (h : IsCut arg root pattern)
    (h' : IsCut arg root' pattern') : root'.same root = true ∧ pattern' = pattern := by
  obtain ⟨c, back, hfirst, hpattern⟩ := h.exists_firstSpecial
  obtain ⟨c', back', hfirst', hpattern'⟩ := h'.exists_firstSpecial
  obtain ⟨hown, hrest⟩ :=
    Prod.mk.inj (hfirst'.splitComponents_eq.symm.trans hfirst.splitComponents_eq)
  refine ⟨?_, by rw [hpattern, hpattern', hrest]⟩
  rw [Path.same, beq_iff_eq]
  by_cases hstart : startsWithPattern arg = true
  · rw [h.supplied hstart, h'.supplied hstart]
  · rwa [ownComponents, ownComponents, if_neg hstart, if_neg hstart] at hown

end IsCut

/-! ## The split -/

/-- The directory that some components lead to: the working directory when there are none. -/
def rootOf (front : List Path.Component) : Path :=
  if front = [] then ⟨"."⟩ else front.foldl Path.push ⟨""⟩

namespace FirstSpecial

variable {front back : List Path.Component} {c : Path.Component}

theorem components_rootOf (h : FirstSpecial ⟨arg⟩ front c back) (hfront : front ≠ []) :
    (rootOf front).components = front := by
  rw [rootOf, if_neg hfront, Path.components_foldl_push h.whole]

theorem startsWithPattern_iff (h : FirstSpecial ⟨arg⟩ front c back) :
    startsWithPattern arg = true ↔ front = [] := by
  rw [startsWithPattern, h.whole]
  cases front with
  | nil => simpa using h.special
  | cons d front => simpa using h.literal d List.mem_cons_self

theorem ownComponents_rootOf (h : FirstSpecial ⟨arg⟩ front c back) :
    ownComponents arg (rootOf front) = front := by
  rw [ownComponents]
  split
  · rename_i hstart
    exact (h.startsWithPattern_iff.1 hstart).symm
  · rename_i hstart
    exact h.components_rootOf fun hnil => hstart (h.startsWithPattern_iff.2 hnil)

theorem literal_rootOf (h : FirstSpecial ⟨arg⟩ front c back) :
    ∀ d ∈ (rootOf front).components, hasGlobChar d.spelling = false := by
  by_cases hnil : front = []
  · subst hnil
    decide
  · rw [h.components_rootOf hnil]
    exact h.literal

theorem isAbsolute_rootOf (h : FirstSpecial ⟨arg⟩ front c back) :
    (rootOf front).isAbsolute = Path.isAbsolute ⟨arg⟩ := by
  cases front with
  | nil =>
    have hsupplied : (rootOf []).isAbsolute = false := by decide
    rw [hsupplied, Path.isAbsolute, h.whole]
    simpa using h.ne_root
  | cons d front =>
    rw [Path.isAbsolute, Path.isAbsolute, h.components_rootOf (List.cons_ne_nil d front), h.whole]
    rfl

/-- What an argument at which nothing is found is split into. -/
theorem splitGlob_eq {fs : Files} (h : FirstSpecial ⟨arg⟩ front c back)
    (hspecial : hasGlobChar arg = true) (hmissing : fs.exists? ⟨arg⟩ = false) :
    splitGlob fs arg =
      some (rootOf front, "/".intercalate ((c :: back).map Path.Component.spelling)) := by
  -- only of no components at all the empty path is put together
  have hempty : (front.foldl Path.push ⟨""⟩).spelling = "" ↔ front = [] := by
    constructor
    · intro hspelling
      have hroot : front.foldl Path.push ⟨""⟩ = ⟨""⟩ := congrArg Path.mk hspelling
      rw [← Path.components_foldl_push h.whole, hroot]
      rfl
    · rintro rfl
      rfl
  rw [splitGlob, if_neg (by simp [hspecial, hmissing]), h.splitComponents_eq]
  simp only [hempty, rootOf]

/-- An argument is cut in front of its first special component. -/
theorem isCut (h : FirstSpecial ⟨arg⟩ front c back) :
    IsCut arg (rootOf front) ("/".intercalate ((c :: back).map Path.Component.spelling)) := by
  have hparts := Path.splitOn_intercalate_spelling (List.cons_ne_nil c back) h.isInner
  refine ⟨?whole, ?supplied, h.literal_rootOf, ?special, h.isAbsolute_rootOf⟩
  case whole =>
    rw [h.ownComponents_rootOf, hparts, h.whole, List.map_append, List.map_map]
    exact congrArg _ (List.map_congr_left fun d hd => (h.isInner d hd).part)
  case supplied => exact fun hstart => if_pos (h.startsWithPattern_iff.1 hstart)
  case special =>
    rw [hparts]
    exact ⟨_, rfl, by rw [String.ofList_toList]; exact h.special⟩

end FirstSpecial

/-- **A glob is split without loss.**  The directory and the pattern it is split into are a cut of
it, and there is no other one. -/
theorem splitGlob_loses_nothing (fs : Files) (arg : String) (hspecial : hasGlobChar arg = true)
    (hmissing : fs.exists? ⟨arg⟩ = false) :
    ∃ root pattern, splitGlob fs arg = some (root, pattern) ∧ IsCut arg root pattern ∧
      ∀ root' pattern', IsCut arg root' pattern' →
        root'.same root = true ∧ pattern' = pattern := by
  obtain ⟨front, c, back, hfirst⟩ := exists_firstSpecial hspecial
  exact ⟨_, _, hfirst.splitGlob_eq hspecial hmissing, hfirst.isCut,
    fun _ _ => hfirst.isCut.eq_of_isCut⟩

/-- A directory with nothing in it. -/
def emptyDirectory : Files := ⟨⟨"/w"⟩, [], [], []⟩

/-- Braces may span slashes, and a component behind them need not hold a special character. -/
theorem splitGlob_spannedBraces :
    hasGlobChar "/srv//./app/\x7ba,b/../c\x7d/d.js" = true ∧
      emptyDirectory.exists? ⟨"/srv//./app/\x7ba,b/../c\x7d/d.js"⟩ = false ∧
      splitGlob emptyDirectory "/srv//./app/\x7ba,b/../c\x7d/d.js" =
        some (⟨"/srv/app"⟩, "\x7ba,b/../c\x7d/d.js") ∧
      IsCut "/srv//./app/\x7ba,b/../c\x7d/d.js" ⟨"/srv/app"⟩ "\x7ba,b/../c\x7d/d.js" := by
  have hspecial : hasGlobChar "/srv//./app/\x7ba,b/../c\x7d/d.js" = true := by decide +kernel
  have hmissing : emptyDirectory.exists? ⟨"/srv//./app/\x7ba,b/../c\x7d/d.js"⟩ = false := by
    decide +kernel
  have hsplit : splitGlob emptyDirectory "/srv//./app/\x7ba,b/../c\x7d/d.js" =
      some (⟨"/srv/app"⟩, "\x7ba,b/../c\x7d/d.js") := by decide +kernel
  obtain ⟨root, pattern, hresult, hcut, -⟩ :=
    splitGlob_loses_nothing emptyDirectory "/srv//./app/\x7ba,b/../c\x7d/d.js" hspecial hmissing
  obtain ⟨rfl, rfl⟩ := Prod.mk.inj (Option.some.inj (hresult.symm.trans hsplit))
  exact ⟨hspecial, hmissing, hsplit, hcut⟩

end Discovery
end WebLint
