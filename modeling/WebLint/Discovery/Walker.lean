import WebLint.Files

/-!
# Walkers

Discovery does not go through directories itself.  It leaves that to the
package `ignore`, which is told where to start and what to leave out, and which
hands in the places it comes to.  Here is what the two say to each other.  How
the package finds its answers is not said: discovery is defined for any walker,
and what is proved of it assumes of a walker what the documentation of the
package promises.
-/

namespace WebLint

/-! ## What a walker is told -/

/-- A glob that is asked before any rules about ignored files. -/
inductive Override where
  /-- What it matches is wanted; where there is such a glob, a file that no
  glob matches is not wanted. -/
  | wanted (pattern : String)
  /-- What it matches is not wanted. -/
  | unwanted (pattern : String)
  deriving DecidableEq, Repr, Inhabited

namespace Override

/-- The glob as the package reads it.  The slash ties a pattern to the
directory of the globs: `*.css` matches only there, as in a shell. -/
def spelling : Override → String
  | .wanted pattern => "/" ++ pattern
  | .unwanted pattern => "!" ++ pattern

/-- Whether a glob says what is wanted. -/
def isWanted : Override → Bool
  | .wanted _ => true
  | .unwanted _ => false

end Override

/-- What a walk leaves out. -/
structure WalkSettings where
  /-- The directory the globs are relative to. -/
  root : Path
  /-- The globs, in order. -/
  overrides : List Override
  /-- Whether names that start with a dot are left out. -/
  hidden : Bool
  /-- Whether rules in the directories above a start count. -/
  parents : Bool
  /-- Whether the rules of `.ignore` files count. -/
  ignore : Bool
  /-- Whether the rules of `.gitignore` files count. -/
  gitIgnore : Bool
  /-- Whether the rules of the user's own ignore file count. -/
  gitGlobal : Bool
  /-- Whether the rules of a repository's `.git/info/exclude` count. -/
  gitExclude : Bool
  /-- Whether the last three kinds count in repositories only. -/
  requireGit : Bool
  deriving Repr, Inhabited

/-- The last of the globs that match, given which ones do. -/
def WalkSettings.lastMatch (s : WalkSettings) (isMatch : Override → Bool) : Option Override :=
  s.overrides.reverse.find? isMatch

/-! ## What a walker hands in -/

/-- A place a walk comes to. -/
structure Place where
  /-- Its path. -/
  path : Path
  /-- How far it lies below where the walk started. -/
  depth : Nat
  /-- Whether a directory is there. -/
  isDirectory : Bool
  deriving DecidableEq, Repr, Inhabited

/-- A walker. -/
structure Walker where
  /-- Why a glob cannot be added to the globs of a directory, if it cannot. -/
  addError : Path → Override → Option String
  /-- Why the globs of a directory cannot be put together, if they cannot. -/
  buildError : Path → List Override → Option String
  /-- The places a walk from some paths comes to, and what goes wrong on the
  way. -/
  walk : Files → WalkSettings → List Path → List (Except String Place)

end WebLint
