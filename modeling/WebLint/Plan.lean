import WebLint.Log
import WebLint.Preset

/-!
# Plans

What a run is to do: which files each checker reads, which rules it checks and
whether it repairs what it can.  Files are shared out by their extension, in
the order of their paths and each only once; a file that no checker handles is
left out.
-/

namespace WebLint

/-- What a run is to do. -/
structure Plan where
  /-- The files for the checker of stylesheets, in order. -/
  stylePaths : List Path
  /-- The files for the checker of scripts, in order. -/
  scriptPaths : List Path
  /-- The rules to check. -/
  rules : RuleSet
  /-- The preset the rules are taken from. -/
  preset : Preset
  /-- Whether violations are repaired. -/
  fix : Bool
  deriving Inhabited

namespace Plan

/-- The files for the checker of a language. -/
def paths (p : Plan) : Language → List Path
  | .style => p.stylePaths
  | .script => p.scriptPaths

/-- The paths of the files that may hold a language, in order. -/
def pathsFor (language : Language) (paths : List Path) : List Path :=
  Path.sortUnique (paths.filter fun p => p.languages.contains language)

/-- Whether some file is read by both checkers. -/
def hasSharedPaths (p : Plan) : Bool := p.stylePaths.any (Path.search p.scriptPaths)

/-- The plan for some files. -/
def ofPaths (preset : Preset) (fix : Bool) (paths : List Path) : Plan where
  stylePaths := pathsFor .style paths
  scriptPaths := pathsFor .script paths
  rules := preset.enabledRules
  preset := preset
  fix := fix

/-- What is logged about files that are left out. -/
def skipEvents (paths : List Path) : List Event :=
  (paths.filter fun p => !p.isLintable).map fun p =>
    ⟨.debug, .partition, "Skipping " ++ p.spelling ++ " (unknown extension)"⟩

/-- The plan for some files, with what is logged about it. -/
def make (preset : Preset) (fix : Bool) (paths : List Path) : Logged Plan :=
  ⟨skipEvents paths, ofPaths preset fix paths⟩

end Plan

end WebLint
