import WebLint.Discovery.Ignore
import WebLint.Discovery.Walker

/-!
# The walker of the program

A walk goes through everything below some directories.  An entry that is
skipped hides all that is below it.  Whether an entry is skipped is decided by
the globs of the walk; where they are silent, by the rules of the nearest
`.gitignore` file that says something; then by the rules of the repository;
then by those of the user; and where all are silent an entry is skipped when
its name starts with a dot.

This stands for the package `ignore`, and the globs for the package `globset`
it is built on, so that the program can be run.  It does what these do for the
walks of discovery: there is nothing here that would count `.ignore` files or
look for repositories, as no walk asks for that, and links are not followed.
Nothing is proved of discovery from these definitions.  What they are held to
is that they keep the documented promises, which is `Walk.follows_walker`.
-/

namespace WebLint
namespace Walk

/-! ## Paths as the rules see them -/

/-- The path of some names, relative to a directory above it.  Elsewhere it is
left absolute. -/
def pathFrom (directory names : List String) : List UInt8 :=
  match Path.below directory names with
  | some below => Glob.bytes ("/".intercalate below).toList
  | none => Glob.bytes (Path.ofNames names).spelling.toList

/-- The directories some names lead through, the nearest first. -/
def parents (names : List String) : List (List String) :=
  (List.range names.length).reverse.map fun n => names.take n

/-! ## The globs of a walk -/

/-- The rule a glob stands for. -/
def overrideRule (o : Override) : Except IgnoreError (Option IgnoreRule) :=
  IgnoreRule.ofLine .strict o.spelling.toList

/-- Whether a glob matches an entry. -/
def isMatch (root : Path) (names : List String) (isDirectory : Bool) (o : Override) : Bool :=
  match overrideRule o with
  | .ok (some r) => r.isAbout (pathFrom root.names names) isDirectory
  | _ => false

/-- Whether only what some glob matches is wanted. -/
def isSelective (s : WalkSettings) : Bool := s.overrides.any Override.isWanted

/-- What the globs of a walk say about an entry: the last one that matches
decides.  When they are selective a file that none matches is not wanted. -/
def overrideVerdict (s : WalkSettings) (names : List String) (isDirectory : Bool) : Verdict :=
  match s.lastMatch (isMatch s.root names isDirectory) with
  | some (.wanted _) => .kept
  | some (.unwanted _) => .ignored
  | none => if isSelective s && !isDirectory then .ignored else .silent

/-! ## The rules about ignored files -/

/-- Where the rules for a directory are written. -/
def gitignoreOf (directory : List String) : List String := directory ++ [".gitignore"]

/-- Where the rules of a repository in a directory are written. -/
def excludesOf (directory : List String) : List String := directory ++ [".git", "info", "exclude"]

/-- What the rules of a file say about an entry below its directory. -/
def fileVerdict (fs : Files) (file directory names : List String) (isDirectory : Bool) : Verdict :=
  IgnoreRule.verdictOf (IgnoreFile.read fs file).rules (pathFrom directory names) isDirectory

/-- What the rules of one kind say about an entry: those of the nearest
directory that say something. -/
def nearestVerdict (fs : Files) (rulesOf : List String → List String)
    (directories : List (List String)) (names : List String) (isDirectory : Bool) : Verdict :=
  (directories.map fun d => fileVerdict fs (rulesOf d) d names isDirectory).foldr
    Verdict.orElse .silent

/-- The directories whose rules count for an entry, the nearest first. -/
def directoriesFor (s : WalkSettings) (start names : List String) : List (List String) :=
  (parents names).filter fun d => s.parents || start.isPrefixOf d

/-- What all rules say about an entry.  `own` are those of the user. -/
def ruleVerdict (own : List IgnoreRule) (fs : Files) (s : WalkSettings)
    (start names : List String) (isDirectory : Bool) : Verdict :=
  let nearest (rulesOf : List String → List String) :=
    nearestVerdict fs rulesOf (directoriesFor s start names) names isDirectory
  (if s.gitIgnore then nearest gitignoreOf else .silent).orElse
    ((if s.gitExclude then nearest excludesOf else .silent).orElse
      (if s.gitGlobal then
        IgnoreRule.verdictOf own (pathFrom fs.cwd.names names) isDirectory
      else .silent))

/-! ## Skipped entries -/

/-- Whether the name of an entry starts with a dot. -/
def isHidden (names : List String) : Bool :=
  match names.getLast? with
  | some name => name.toList.head? == some '.'
  | none => false

/-- Whether a walk skips an entry. -/
def isSkipped (own : List IgnoreRule) (fs : Files) (s : WalkSettings)
    (start names : List String) : Bool :=
  let isDirectory := fs.isDirectory names
  match (overrideVerdict s names isDirectory).orElse
    (ruleVerdict own fs s start names isDirectory) with
  | .ignored => true
  | .kept => false
  | .silent => s.hidden && isHidden names

/-! ## Entries -/

/-- The names of all entries below a directory, each before what is below
it. -/
def entriesBelow (fs : Files) (start : List String) : List (List String) :=
  let all := (fs.cwd.names :: fs.directories ++ fs.entries.map (·.1)).flatMap fun names =>
    (List.range (names.length + 1)).map fun n => names.take n
  let below := all.filter fun names => start.isPrefixOf names && start.length < names.length
  (Path.sortUnique (below.map Path.ofNames)).map Path.names

/-- Whether a walk comes to an entry: neither the entry nor a directory on the
way to it is skipped. -/
def isReached (own : List IgnoreRule) (fs : Files) (s : WalkSettings)
    (start names : List String) : Bool :=
  (List.range (names.length - start.length)).all fun n =>
    !isSkipped own fs s start (names.take (start.length + n + 1))

/-- The place of an entry below a directory. -/
def placeBelow (fs : Files) (start names : List String) : Place :=
  ⟨Path.ofNames names, names.length - start.length, fs.isDirectory names⟩

/-- The places a walk comes to from one path.  The path itself is never
skipped. -/
def placesFrom (own : List IgnoreRule) (fs : Files) (s : WalkSettings) (start : Path) :
    List Place :=
  match fs.lookup start with
  | .error _ => []
  | .ok (.file _) => [⟨start, 0, false⟩]
  | .ok .directory =>
    ⟨start, 0, true⟩ ::
      ((entriesBelow fs start.names).filter (isReached own fs s start.names)).map
        (placeBelow fs start.names)

/-! ## Complaints -/

/-- What is complained about a path at which nothing is found. -/
def missing (p : Path) (e : FileError) : String := p.spelling ++ ": " ++ e.message

/-- The complaints about the rules of one directory. -/
def ruleComplaints (fs : Files) (directory : List String) : List String :=
  [gitignoreOf directory, excludesOf directory].flatMap fun names =>
    (IgnoreFile.read fs names).complaints (Path.ofNames names)

/-- The complaints about the rules in the directories above some starts, one
for each start.  `told` are the directories already complained about. -/
def parentComplaints (fs : Files) (told : List (List String)) :
    List (List String) → List String
  | [] => []
  | start :: starts =>
    let fresh := (parents start).reverse.filter fun d => !told.contains d
    let messages := fresh.flatMap (ruleComplaints fs)
    (if messages.isEmpty then [] else ["\n".intercalate messages]) ++
      parentComplaints fs (fresh ++ told) starts

/-- The paths of a walk that lead to directories. -/
def directoriesOf (fs : Files) (paths : List Path) : List (List String) :=
  (paths.filter fun p => fs.isDirectory p.names).map Path.names

/-- The complaints about the paths of a walk. -/
def complaints (fs : Files) (paths : List Path) : List String :=
  (paths.filterMap fun p =>
    match fs.lookup p with
    | .error e => some (missing p e)
    | .ok _ => none) ++ parentComplaints fs [] (directoriesOf fs paths)

/-! ## The walker -/

/-- The walker of a user with some rules of their own.  Globs that can each be
read can be put together. -/
def walker (own : List IgnoreRule) : Walker where
  addError _ o :=
    match overrideRule o with
    | .error e => some e.message
    | .ok _ => none
  buildError _ _ := none
  walk fs s paths :=
    (complaints fs paths).map .error ++ (paths.flatMap (placesFrom own fs s)).map .ok

end Walk
end WebLint
