import WebLint.Text

/-!
# Globs

A glob is a pattern for the paths of files.  It is matched against the *bytes*
of a path: `?` and a class stand for one byte, `*` for any bytes but slashes,
and `**` between slashes for any number of directories.

This stands for the package `globset`, as the walker of the program uses it.
Nothing is proved of globs: discovery leaves them to its walker.
-/

namespace WebLint

/-- A part of a glob. -/
inductive GlobToken where
  /-- One character. -/
  | literal (char : Char)
  /-- Any byte but a slash: `?`. -/
  | any
  /-- Any bytes but slashes: `*`. -/
  | star
  /-- Any directories at the start: `**/`, or nothing. -/
  | anyDirectories
  /-- Anything below a directory: `/**` at the end. -/
  | anyBelow
  /-- Any directories between two others: `/**/`. -/
  | anyBetween
  /-- One of some ranges of characters, or none of them: `[a-z]`, `[!a-z]`. -/
  | oneOf (negated : Bool) (ranges : List (Char × Char))
  /-- One of some globs: `{a,b}`. -/
  | alternates (branches : List (List GlobToken))
  deriving Repr, Inhabited

/-- A glob: its parts in order. -/
abbrev Glob := List GlobToken

namespace Glob

/-- The bytes of a character. -/
def charBytes (c : Char) : List UInt8 := String.utf8EncodeChar c

/-- The bytes of a text. -/
def bytes (t : Text) : List UInt8 := t.flatMap charBytes

/-- The byte of a slash. -/
def slash : UInt8 := 47

/-! ## Classes -/

/-- The ranges of bytes a range of characters stands for.  Of a character of
several bytes only the last one starts a range, and only the first one ends
one. -/
def byteRanges (r : Char × Char) : List (UInt8 × UInt8) :=
  let low := charBytes r.1
  let high := charBytes r.2
  let single (b : UInt8) := (b, b)
  if r.1 = r.2 then low.map single
  else
    low.dropLast.map single ++ [(low.getLastD 0, high.headD 0)] ++ high.tail.map single

/-- Whether a byte belongs to a class. -/
def inClass (negated : Bool) (ranges : List (Char × Char)) (b : UInt8) : Bool :=
  negated != (ranges.flatMap byteRanges).any fun r => decide (r.1 ≤ b) && decide (b ≤ r.2)

/-! ## Matching -/

/-- What follows each slash of a path. -/
def behindSlashes : List UInt8 → List (List UInt8)
  | [] => []
  | b :: bs => if b = slash then bs :: behindSlashes bs else behindSlashes bs

/-- What is left over when `*` takes no byte, one byte, and so on. -/
def behindStar : List UInt8 → List (List UInt8)
  | [] => [[]]
  | b :: bs => (b :: bs) :: (if b = slash then [] else behindStar bs)

/-- What is left over when any number of bytes is taken. -/
def suffixes : List UInt8 → List (List UInt8)
  | [] => [[]]
  | b :: bs => (b :: bs) :: suffixes bs

mutual

/-- Whether a part stands for nothing at all, being a choice between globs
that do. -/
def tokenIsVoid : GlobToken → Bool
  | .alternates branches => branchesAreVoid branches
  | _ => false

/-- Whether each part of a glob stands for nothing. -/
def globIsVoid : Glob → Bool
  | [] => true
  | t :: ts => tokenIsVoid t && globIsVoid ts

/-- Whether each of some globs stands for nothing. -/
def branchesAreVoid : List Glob → Bool
  | [] => true
  | g :: gs => globIsVoid g && branchesAreVoid gs

end

mutual

/-- What may be left over of a path behind one part of a glob.  Branches that
stand for nothing are no choice, unless all of them are. -/
def tokenRests : GlobToken → List UInt8 → List (List UInt8)
  | .literal c, bs => if (charBytes c).isPrefixOf bs then [bs.drop (charBytes c).length] else []
  | .any, b :: bs => if b = slash then [] else [bs]
  | .any, [] => []
  | .star, bs => behindStar bs
  | .anyDirectories, bs => bs :: behindSlashes bs
  | .anyBelow, b :: bs => if b = slash then suffixes bs else []
  | .anyBelow, [] => []
  | .anyBetween, b :: bs => if b = slash then bs :: behindSlashes bs else []
  | .anyBetween, [] => []
  | .oneOf negated ranges, b :: bs => if inClass negated ranges b then [bs] else []
  | .oneOf _ _, [] => []
  | .alternates branches, bs =>
    if branchesAreVoid branches then [bs] else branchRests branches bs

/-- What may be left over of a path behind a glob. -/
def rests : Glob → List UInt8 → List (List UInt8)
  | [], bs => [bs]
  | t :: ts, bs => ((tokenRests t bs).eraseDups.flatMap fun bs => rests ts bs).eraseDups

/-- What may be left over of a path behind one of some globs. -/
def branchRests : List Glob → List UInt8 → List (List UInt8)
  | [], _ => []
  | g :: gs, bs => (if globIsVoid g then [] else rests g bs) ++ branchRests gs bs

end

/-! ## Whole paths -/

/-- Whether a part is a single character. -/
def isLiteral : GlobToken → Bool
  | .literal _ => true
  | _ => false

/-- Whether a glob spells a path out, or the last names of one. -/
def isSpelledOut : Glob → Bool
  | .anyDirectories :: ts =>
    ts.all isLiteral && ts.any fun t => match t with
      | .literal c => c == '/'
      | _ => false
  | ts => ts.all isLiteral

/-- Whether a glob ends with a dot. -/
def endsWithDot (g : Glob) : Bool :=
  match g.getLast? with
  | some (.literal c) => c == '.'
  | _ => false

/-- Whether a glob asks for a name or an extension that a path lacks.  A path
that ends with a dot counts as one without a name, unless it is spelled out. -/
def lacksName (g : Glob) (path : List UInt8) : Bool :=
  path.getLast? == some 46 && endsWithDot g && !isSpelledOut g

/-- Whether a glob stands for a whole path.  The glob `**` stands for all. -/
def isMatch (g : Glob) (path : List UInt8) : Bool :=
  match g with
  | [.anyDirectories] => true
  | g => !lacksName g path && (rests g path).contains []

end Glob

end WebLint
