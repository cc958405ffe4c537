import WebLint.Discovery.Walker
import WebLint.Language
import WebLint.Log

/-!
# Discovery

The files to check, from the arguments of a run.  An argument is a file, a
directory, or a glob.  A file that is named is always checked; of what lies
below a directory, or below the directory a glob starts in, only what some
checker handles.
-/

namespace WebLint
namespace Discovery

/-! ## Globs among the arguments -/

/-- Whether a text holds a character that is special in globs. -/
def hasGlobChar (text : String) : Bool :=
  text.toList.any fun c => c == '*' || c == '?' || c == '[' || c == '\x7b'

/-- The components of a glob up to the first that holds a special character,
and that one and all behind it. -/
def splitComponents (p : Path) : List Path.Component × List Path.Component :=
  p.components.span fun c => !hasGlobChar c.spelling

/-- The directory a glob starts in, and the glob itself.  Nothing for an
argument without special characters, or one that something is found at. -/
def splitGlob (fs : Files) (arg : String) : Option (Path × String) :=
  if !hasGlobChar arg || fs.exists? ⟨arg⟩ then none
  else
    let (literal, pattern) := splitComponents ⟨arg⟩
    let root := literal.foldl Path.push ⟨""⟩
    let root := if root.spelling = "" then ⟨"."⟩ else root
    some (root, "/".intercalate (pattern.map (·.spelling)))

/-! ## What is found -/

/-- What is found on the way: a file to check, or a complaint. -/
inductive Found where
  | file (path : Path)
  | complaint (message : String)
  deriving DecidableEq, Repr, Inhabited

/-- The files among what is found, in order and each once. -/
def filesOf (found : List Found) : List Path :=
  Path.sortUnique (found.filterMap fun f =>
    match f with
    | .file p => some p
    | .complaint _ => none)

/-- The complaints among what is found. -/
def complaintsOf (found : List Found) : List String :=
  found.filterMap fun f =>
    match f with
    | .file _ => none
    | .complaint m => some m

/-! ## The globs of a walk -/

/-- What is never wanted: dependencies, repositories and generated files. -/
def exclusions : List String := ["node_modules/", ".git/", "*.min.js", "*.min.css"]

/-- Warn about a glob. -/
def warn (text : String) : Logged Unit := Logged.log .warn .discovery text

/-- Add the pattern of a walk, if it has one.  Nothing when it is no glob. -/
def addPattern (w : Walker) (root : Path) : Option String → Logged (Option (List Override))
  | none => return some []
  | some pattern => do
    match w.addError root (.wanted pattern) with
    | none => return some [.wanted pattern]
    | some message =>
      warn ("Invalid glob pattern '" ++ pattern ++ "': " ++ message)
      return none

/-- Add an exclusion. -/
def addExclusion (w : Walker) (root : Path) (pattern : String) : Logged (List Override) := do
  match w.addError root (.unwanted pattern) with
  | none => return [.unwanted pattern]
  | some message =>
    warn ("Failed to add exclude pattern '" ++ pattern ++ "': " ++ message)
    return []

/-- Put the globs of a walk together.  It goes without when they cannot be. -/
def build (w : Walker) (root : Path) (globs : List Override) : Logged (List Override) := do
  match w.buildError root globs with
  | none => return globs
  | some message =>
    warn ("Failed to build exclude patterns: " ++ message)
    return []

/-- The globs of a walk: its pattern, and the exclusions behind it.  Nothing
when the pattern is no glob. -/
def overridesOf (w : Walker) (root : Path) (pattern : Option String) :
    Logged (Option (List Override)) := do
  match ← addPattern w root pattern with
  | none => return none
  | some wanted =>
    let excluded ← exclusions.mapM (addExclusion w root)
    return some (← build w root (wanted ++ excluded.flatten))

/-- What every walk leaves out.  The rules of `.gitignore` files count outside
of repositories too. -/
def settings (root : Path) (overrides : List Override) : WalkSettings where
  root := root
  overrides := overrides
  hidden := true
  parents := true
  ignore := false
  gitIgnore := true
  gitGlobal := true
  gitExclude := true
  requireGit := false

/-! ## One walk -/

/-- What is logged about a place. -/
def tell (what : String) (p : Path) : Logged Unit :=
  Logged.log .trace .discovery (what ++ " " ++ p.spelling)

/-- Take what a walk hands in.  Where a walk starts a file has been named,
unless the walk is that of a glob. -/
def visit (isGlob : Bool) : Except String Place → Logged (List Found)
  | .error message => return [.complaint message]
  | .ok place => do
    let isExplicit := place.depth == 0 && !isGlob
    if isExplicit && !place.isDirectory then
      tell "Included file due to explicit provision" place.path
      return [.file place.path]
    else if !place.isDirectory && place.path.isLintable then
      tell "Included file" place.path
      return [.file place.path]
    else
      tell "Excluded file due to fallthrough" place.path
      return []

/-- Walk some paths.  With a pattern, only what it matches below `root` is
wanted. -/
def walk (w : Walker) (fs : Files) (paths : List Path) (root : Path) (pattern : Option String) :
    Logged (List Found) := do
  let paths := paths.map (Path.normalize (some fs.cwd))
  let root := root.normalize (some fs.cwd)
  if paths.isEmpty then return []
  else
    match ← overridesOf w root pattern with
    | none => return []
    | some overrides =>
      let found ← (w.walk fs (settings root overrides) paths).mapM (visit pattern.isSome)
      return found.flatten

/-! ## All arguments -/

/-- Walk the directory a glob starts in. -/
def walkGlob (w : Walker) (fs : Files) (glob : Path × String) : Logged (List Found) := do
  Logged.log .debug .discovery
    ("Walking " ++ glob.1.spelling ++ " for `" ++ glob.2 ++ "`")
  walk w fs [glob.1] glob.1 (some glob.2)

/-- The arguments that are no globs. -/
def literals (fs : Files) (args : List String) : List Path :=
  (args.filter fun a => (splitGlob fs a).isNone).map Path.mk

/-- All that is found for some arguments: the globs are walked one by one, and
the other arguments in one walk behind them. -/
def findAll (w : Walker) (fs : Files) (args : List String) : Logged (List Found) := do
  let globs ← (args.filterMap (splitGlob fs)).mapM (walkGlob w fs)
  let others ← walk w fs (literals fs args) ⟨"."⟩ none
  return globs.flatten ++ others

/-- What discovery yields. -/
structure Result where
  /-- What went wrong, in order. -/
  complaints : List String
  /-- The files to check, in order and each once. -/
  paths : List Path
  deriving DecidableEq, Repr, Inhabited

/-- The files to check for some arguments. -/
def discover (w : Walker) (fs : Files) (args : List String) : Logged Result := do
  let found ← findAll w fs args
  return ⟨complaintsOf found, filesOf found⟩

end Discovery
end WebLint
