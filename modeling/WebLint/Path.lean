import WebLint.Text

/-!
# Paths

A path is printed as it was spelled, but two paths are compared by their
components: `a//b`, `a/./b` and `a/b` are the same path, and `a/b` comes
before `a-b`.  Normalising a path is purely lexical; no link is followed.

`Path.normalize` stands for the package `path-absolutize`, which is not part of
the program.  Assumed of it is that it reads a path in the working directory
and takes out every `.`, and every `..` together with the name in front of it,
without asking the file system; it fails only when there is no working
directory to be told.
-/

namespace WebLint

/-- A path, as it was spelled. -/
structure Path where
  /-- The text of the path. -/
  spelling : String
  deriving DecidableEq, Repr, Inhabited

namespace Path

/-- One step of a path.  The order of the constructors is the order of the
components. -/
inductive Component where
  /-- The root directory. -/
  | root
  /-- A leading `.`. -/
  | here
  /-- `..`. -/
  | parent
  /-- A file or directory name. -/
  | name (text : String)
  deriving DecidableEq, Repr, Inhabited

/-! ## Components -/

/-- Split at every `/`, keeping the empty parts. -/
def splitSlash : List Char → List (List Char)
  | [] => [[]]
  | c :: t =>
    if c = '/' then [] :: splitSlash t
    else
      match splitSlash t with
      | [] => [[c]]
      | part :: parts => (c :: part) :: parts

/-- The component a part between two slashes stands for.  Empty parts and `.`
stand for nothing. -/
def Component.ofPart (part : List Char) : Option Component :=
  if part = [] ∨ part = ['.'] then none
  else if part = ['.', '.'] then some .parent
  else some (.name (String.ofList part))

/-- The components of a path.  Only a leading `.` is a component. -/
def components (p : Path) : List Component :=
  match p.spelling.toList with
  | [] => []
  | '/' :: rest => .root :: (splitSlash rest).filterMap Component.ofPart
  | text =>
    let parts := splitSlash text
    let front := if parts.head? = some ['.'] then [Component.here] else []
    front ++ parts.filterMap Component.ofPart

/-- The text of a component. -/
def Component.spelling : Component → String
  | .root => "/"
  | .here => "."
  | .parent => ".."
  | .name text => text

/-- Whether a path starts at the root. -/
def isAbsolute (p : Path) : Bool := p.components.head? == some .root

/-- A path followed by one more component.  The root starts anew. -/
def push (p : Path) (c : Component) : Path :=
  if c = .root ∨ p.spelling = "" then ⟨c.spelling⟩
  else if p.spelling.toList.getLast? = some '/' then ⟨p.spelling ++ c.spelling⟩
  else ⟨p.spelling ++ "/" ++ c.spelling⟩

/-! ## Order -/

/-- The place of a component's kind in the order. -/
def Component.rank : Component → Nat
  | .root => 0
  | .here => 1
  | .parent => 2
  | .name _ => 3

/-- The order of components: the root, `.`, `..`, and then the names by their
characters. -/
def Component.compare : Component → Component → Ordering
  | .name a, .name b => Ord.compare a b
  | a, b => Ord.compare a.rank b.rank

/-- The order of component lists, the first difference deciding. -/
def compareComponents : List Component → List Component → Ordering
  | [], [] => .eq
  | [], _ :: _ => .lt
  | _ :: _, [] => .gt
  | a :: as, b :: bs => (a.compare b).then (compareComponents as bs)

/-- The order of paths. -/
def compare (p q : Path) : Ordering :=
  compareComponents p.components q.components

/-- Whether `p` comes no later than `q`. -/
def le (p q : Path) : Bool := (compare p q).isLE

/-- Whether two paths have the same components. -/
def same (p q : Path) : Bool := p.components == q.components

/-- A list without the paths that are the same as the one before them. -/
def dropRepeats : List Path → List Path
  | [] => []
  | [p] => [p]
  | p :: q :: rest =>
    match dropRepeats (q :: rest) with
    | [] => [p]
    | r :: rs => if same p q then p :: rs else p :: r :: rs

/-- The paths of a list in order, each once. -/
def sortUnique (ps : List Path) : List Path :=
  dropRepeats (ps.mergeSort le)

/-- Whether a path is among the `size` paths of an ordered list from the index
`base` on.  Their number is halved until one of them is left. -/
def searchFrom (ps : List Path) (p : Path) (base size : Nat) : Bool :=
  if 1 < size then
    let middle := base + size / 2
    let base := match ps[middle]? with
      | some q => if compare q p = .gt then base else middle
      | none => base
    searchFrom ps p base (size - size / 2)
  else
    match ps[base]? with
    | some q => compare q p == .eq
    | none => false
termination_by size
decreasing_by omega

/-- Whether a path is in an ordered list. -/
def search (ps : List Path) (p : Path) : Bool := searchFrom ps p 0 ps.length

/-! ## Names and extensions -/

/-- The last component, when it is a name. -/
def fileName (p : Path) : Option String :=
  match p.components.getLast? with
  | some (.name text) => some text
  | _ => none

/-- What follows the last dot of the file name.  A name that only starts with
a dot has no extension. -/
def extension (p : Path) : Option (List Char) :=
  p.fileName.bind fun text =>
    let name := text.toList
    let after := (name.reverse.takeWhile (· != '.')).reverse
    let dotted := name.length - after.length
    if dotted ≤ 1 then none else some after

/-! ## Normal form -/

/-- The names that lead from the root to where a component leads from `dir`.
`..` at the root stays at the root. -/
def step (dir : List String) : Component → List String
  | .root => []
  | .here => dir
  | .parent => dir.dropLast
  | .name text => dir ++ [text]

/-- The names that lead from the root to `p`, when `p` is read in the
directory `dir`. -/
def namesFrom (dir : List String) (p : Path) : List String :=
  p.components.foldl step dir

/-- The names that lead from the root to an absolute path. -/
def names (p : Path) : List String := namesFrom [] p

/-- The absolute path of a list of names. -/
def ofNames (names : List String) : Path := ⟨"/" ++ "/".intercalate names⟩

/-- The absolute form of a path, without `.` and `..`.  When the working
directory cannot be told, the path is left as it is. -/
def normalize (cwd : Option Path) (p : Path) : Path :=
  match cwd with
  | none => p
  | some dir => ofNames (namesFrom dir.names p)

/-- The list left of `names` after `dir`, when `dir` is its beginning. -/
def below (dir names : List String) : Option (List String) :=
  match dir, names with
  | [], rest => some rest
  | _ :: _, [] => none
  | d :: ds, n :: ns => if d = n then below ds ns else none

/-- A path as a report names it: relative to the working directory when it is
below it, and as it was spelled otherwise. -/
def relativize (cwd : Option Path) (p : Path) : String :=
  match cwd with
  | none => p.spelling
  | some dir =>
    match below dir.names (namesFrom dir.names p) with
    | some (n :: ns) => "/".intercalate (n :: ns)
    | _ => p.spelling

end Path

end WebLint
