import WebLint.Glob

/-!
# Reading globs

A glob is read from left to right, the choices it is in being kept on a stack.
`**` is special only when it stands alone between slashes; elsewhere it means
the same as `*`.  What counts as an error, and what it is called, is that of
`globset`.
-/

namespace WebLint

/-- Why a text is no glob. -/
inductive GlobError where
  /-- A class is not closed. -/
  | unclosedClass
  /-- A range of a class ends before it starts. -/
  | invalidRange (first last : Char)
  /-- A choice is closed that was not opened. -/
  | unopenedAlternates
  /-- A choice is not closed. -/
  | unclosedAlternates
  /-- There is nothing behind a backslash. -/
  | danglingEscape
  deriving DecidableEq, Repr, Inhabited

/-- What a user is told about an error. -/
def GlobError.message : GlobError → String
  | .unclosedClass => "unclosed character class; missing ']'"
  | .invalidRange first last =>
    "invalid range; '" ++ String.singleton first ++ "' > '" ++ String.singleton last ++ "'"
  | .unopenedAlternates =>
    "unopened alternate group; missing '\x7b' (maybe escape '\x7d' with '[\x7d]'?)"
  | .unclosedAlternates =>
    "unclosed alternate group; missing '\x7d' (maybe escape '\x7b' with '[\x7b]'?)"
  | .danglingEscape => "dangling '\\'"

namespace Glob

/-! ## Classes -/

/-- What reading a class gives. -/
inductive ClassResult where
  /-- Its ranges, and the text behind it. -/
  | closed (ranges : List (Char × Char)) (rest : Text)
  /-- It is not closed. -/
  | unclosed
  /-- One of its ranges ends before it starts. -/
  | invalid (first last : Char)
  deriving Repr, Inhabited

/-- Read the rest of a class.  `ranges` are the ranges so far, the latest
first, and `isOpen` tells that the latest one still lacks its end.  A `]` or
`-` that comes first stands for itself. -/
def classRest (first : Bool) (ranges : List (Char × Char)) (isOpen : Bool) : Text → ClassResult
  | [] => .unclosed
  | c :: rest =>
    if c = ']' ∧ !first then
      .closed ((if isOpen then ('-', '-') :: ranges else ranges).reverse) rest
    else if c = '-' ∧ !first ∧ !isOpen then classRest false ranges true rest
    else
      match isOpen, ranges with
      | true, (low, _) :: others =>
        if c.toNat < low.toNat then .invalid low c
        else classRest false ((low, c) :: others) false rest
      | _, _ => classRest false ((c, c) :: ranges) false rest

/-- Read a class behind its opening bracket: whether it is negated, and its
ranges. -/
def readClass : Text → Bool × ClassResult
  | '!' :: rest => (true, classRest true [] false rest)
  | '^' :: rest => (true, classRest true [] false rest)
  | rest => (false, classRest true [] false rest)

/-! ## The stack of choices -/

/-- A choice being read: its finished branches, and the parts of the branch
being read, the latest first. -/
structure Branching where
  /-- The finished branches, in order. -/
  finished : List Glob
  /-- The parts of the branch being read, the latest first. -/
  parts : List GlobToken
  deriving Repr, Inhabited

/-- What has been read of a glob: the innermost choice, or the glob itself,
and what is around it. -/
structure ReadState where
  /-- What is being read. -/
  inner : Branching
  /-- What is around it, the nearest first. -/
  outer : List Branching
  deriving Repr, Inhabited

namespace ReadState

/-- Nothing has been read. -/
def start : ReadState := ⟨⟨[], []⟩, []⟩

/-- Add a part. -/
def push (s : ReadState) (t : GlobToken) : ReadState :=
  { s with inner := { s.inner with parts := t :: s.inner.parts } }

/-- Open a choice. -/
def openChoice (s : ReadState) : ReadState := ⟨⟨[], []⟩, s.inner :: s.outer⟩

/-- Whether a choice is being read. -/
def isChoosing (s : ReadState) : Bool := !s.outer.isEmpty

/-- Go on to the next branch. -/
def nextBranch (s : ReadState) : ReadState :=
  { s with inner := ⟨s.inner.finished ++ [s.inner.parts.reverse], []⟩ }

/-- Close a choice. -/
def closeChoice (s : ReadState) : Except GlobError ReadState :=
  match s.outer with
  | [] => .error .unopenedAlternates
  | around :: outer =>
    let branches := s.inner.finished ++ [s.inner.parts.reverse]
    .ok (ReadState.push ⟨around, outer⟩ (.alternates branches))

/-- The whole glob. -/
def finish (s : ReadState) : Except GlobError Glob :=
  if s.isChoosing then .error .unclosedAlternates else .ok s.inner.parts.reverse

/-- Put a part for directories in the place of the slash in front of it.  Next
to another such part it says nothing new. -/
def pushDirectories (s : ReadState) (t : GlobToken) : ReadState :=
  match s.inner.parts with
  | .anyDirectories :: _ => s
  | .anyBelow :: _ => s
  | _ :: parts => { s with inner := { s.inner with parts := t :: parts } }
  | [] => s.push t

end ReadState

/-! ## Stars -/

/-- Read on behind `**`, with `last` in front of it: what has been read then,
the character read last, and the rest of the text. -/
def readStars (s : ReadState) (last : Option Char) (rest : Text) :
    ReadState × Option Char × Text :=
  let plain := ((s.push .star).push .star, some '*', rest)
  if s.inner.parts.isEmpty then
    match rest with
    | [] => (s.push .anyDirectories, none, [])
    | '/' :: rest => (s.push .anyDirectories, some '/', rest)
    | _ => plain
  else if last ≠ some '/' ∧ !(s.isChoosing && (last == some ',' || last == some '\x7b')) then plain
  else
    match rest with
    | [] => (s.pushDirectories .anyBelow, none, [])
    | '/' :: rest => (s.pushDirectories .anyBetween, some '/', rest)
    | c :: _ =>
      if s.isChoosing && (c == ',' || c == '\x7d') then
        (s.pushDirectories .anyBelow, some '*', rest)
      else plain

/-! ## Globs -/

/-- What an opening bracket may be. -/
inductive Brackets where
  /-- The start of a class, which has to be closed. -/
  | strict
  /-- The start of a class, or itself when it is not closed. -/
  | lenient
  /-- Itself. -/
  | plain
  deriving DecidableEq, Repr, Inhabited

/-- Read a text, `last` being the character in front of it.  A character takes
at most one unit of fuel. -/
def readFrom : Nat → Brackets → ReadState → Option Char → Text → Except GlobError ReadState
  | 0, _, s, _, _ => .ok s
  | _ + 1, _, s, _, [] => .ok s
  | fuel + 1, brackets, s, last, c :: rest =>
    if c = '?' then readFrom fuel brackets (s.push .any) (some c) rest
    else if c = '*' then
      match rest with
      | '*' :: rest =>
        let (s, last, rest) := readStars s last rest
        readFrom fuel brackets s last rest
      | rest => readFrom fuel brackets (s.push .star) (some c) rest
    else if c = '[' ∧ brackets ≠ .plain then
      match readClass rest with
      | (negated, .closed ranges rest) =>
        readFrom fuel brackets (s.push (.oneOf negated ranges)) (some ']') rest
      | (_, .invalid low high) => .error (.invalidRange low high)
      | (_, .unclosed) =>
        if brackets = .strict then .error .unclosedClass
        else readFrom fuel .plain (s.push (.literal c)) (some c) rest
    else if c = '\x7b' then readFrom fuel brackets s.openChoice (some c) rest
    else if c = '\x7d' then
      match s.closeChoice with
      | .error e => .error e
      | .ok s => readFrom fuel brackets s (some c) rest
    else if c = ',' ∧ s.isChoosing then readFrom fuel brackets s.nextBranch (some c) rest
    else if c = '\\' then
      match rest with
      | [] => .error .danglingEscape
      | d :: rest => readFrom fuel brackets (s.push (.literal d)) (some d) rest
    else readFrom fuel brackets (s.push (.literal c)) (some c) rest

/-- The glob a text stands for. -/
def parse (brackets : Brackets) (t : Text) : Except GlobError Glob :=
  (readFrom (t.length + 1) brackets .start none t).bind ReadState.finish

end Glob

end WebLint
