import WebLint.CommandLine.Run
import WebLint.Discovery.Walk
import WebLint.Json.Reader
import WebLint.Tree.Table

/-!
# The command

The files a run may need are loaded, the run is computed, and what it changed
and wrote is carried out.  Everything is decided by `Run.execute`; here is only
what cannot be a value.

The trees of the texts are read from the table in the file that the variable
`LINT_TREES` names.  A text that is not in the table counts as malformed.
-/

namespace WebLint
namespace Command

/-! ## Loading files -/

/-- Something there may be none of: nothing when an action fails. -/
def attempt {α : Type} (action : IO α) : IO (Option α) := do
  try
    return some (← action)
  catch _ => return none

/-- The files with a listed directory. -/
def addDirectory (fs : Files) (names : List String) : Files :=
  { fs with directories := names :: fs.directories }

/-- The spelling of the absolute path of some names. -/
def spell (names : List String) : String := (Path.ofNames names).spelling

/-- Whether a file may be written. -/
def isWritable (file : String) : IO Bool := do
  return (← attempt (IO.FS.Handle.mk file .append)).isSome

/-- Load the file at some names, if there is one. -/
def loadFile (fs : Files) (names : List String) : IO Files := do
  let some bytes ← attempt (IO.FS.readBinFile (spell names)) | return fs
  let fs := fs.put names (Contents.ofBytes bytes.toList)
  if ← isWritable (spell names) then return fs
  else return { fs with readOnly := names :: fs.readOnly }

/-- Whether the contents of a file may be asked for. -/
def isOfInterest (name : String) : Bool := name == ".gitignore" || Path.isLintable ⟨name⟩

/-- Load a file below a directory.  What nobody asks for is left empty. -/
def loadEntry (fs : Files) (names : List String) : IO Files :=
  if isOfInterest (names.getLast?.getD "") then loadFile fs names
  else return fs.put names (.binary [])

/-- Load the rules for ignored files of a directory. -/
def loadRules (fs : Files) (directory : List String) : IO Files := do
  loadFile (← loadFile fs (Walk.gitignoreOf directory)) (Walk.excludesOf directory)

/-- Whether no walk enters a directory of this name. -/
def isExcluded (name : String) : Bool := Discovery.exclusions.contains (name ++ "/")

/-- Load a directory and all below it.  Links are not followed. -/
partial def loadDirectory (fs : Files) (names : List String) : IO Files := do
  let some entries ← attempt do (← IO.FS.realPath (spell names)).readDir | return fs
  let mut files ← loadRules (addDirectory fs names) names
  for entry in entries do
    let below := names ++ [entry.fileName]
    let some found ← attempt entry.path.symlinkMetadata | continue
    match found.type with
    | .dir => unless isExcluded entry.fileName do files ← loadDirectory files below
    | .file => files ← loadEntry files below
    | _ => pure ()
  return files

/-- Load what is found at some names. -/
def loadAt (fs : Files) (names : List String) : IO Files := do
  match ← attempt do (← IO.FS.realPath (spell names)).metadata with
  | some found => if found.type == .dir then loadDirectory fs names else loadFile fs names
  | none => return fs

/-- Load what an argument leads to: the file or directory it names, or the
directory it starts in when it is a glob. -/
def loadArgument (fs : Files) (argument : String) : IO Files := do
  let (literal, pattern) := Discovery.splitComponents ⟨argument⟩
  let names := literal.foldl Path.step fs.cwd.names
  let fs ← (Walk.parents names).foldlM loadRules fs
  let fs ← loadAt fs names
  if pattern.isEmpty then return fs
  else loadAt fs (Path.namesFrom fs.cwd.names ⟨argument⟩)

/-- Load the files a run may need. -/
def loadFiles (words : List String) : IO Files := do
  let cwd ← IO.currentDir
  let fs : Files := { cwd := ⟨cwd.toString⟩, entries := [] }
  match Arguments.parse words with
  | .ok a => a.files.foldlM loadArgument (← loadDirectory fs fs.cwd.names)
  | .error _ => return fs

/-! ## Surroundings -/

/-- The settings around a run. -/
def environment : IO Environment := do
  return {
    noColor := ← IO.getEnv "NO_COLOR"
    forceColor := ← IO.getEnv "CLICOLOR_FORCE"
    logFilter := ← IO.getEnv "LINT_LOG" }

/-- The directory the user's settings of programs lie in. -/
def settingsDirectory : IO (Option String) := do
  match ← IO.getEnv "XDG_CONFIG_HOME" with
  | some directory => return some directory
  | none => return (← IO.getEnv "HOME").map (· ++ "/.config")

/-- The user's own rules about ignored files. -/
def ownRules : IO (List IgnoreRule) := do
  let some directory ← settingsDirectory | return []
  let some bytes ← attempt (IO.FS.readBinFile (directory ++ "/git/ignore")) | return []
  return (IgnoreFile.ofContents (Contents.ofBytes bytes.toList)).rules

/-- The table of trees in a file. -/
def readTable (file : String) : IO ParseTable := do
  let some bytes ← attempt (IO.FS.readBinFile file) | return []
  let .text text := Contents.ofBytes bytes.toList | return []
  return ((Json.parse? text).bind ParseTable.ofJson?).getD []

/-- The parser of a run. -/
def parser : IO Parser := do
  match ← IO.getEnv "LINT_TREES" with
  | some file => return (← readTable file).parser
  | none => return ParseTable.parser []

/-! ## Carrying out -/

/-- Write the files that a run has changed. -/
def store (before after : Files) : IO Unit :=
  for (names, contents) in after.entries do
    if before.file? names != some contents then
      if let .text text := contents then
        IO.FS.writeFile (spell names) (String.ofList text)

/-- Write a text to the standard output; whether that was possible. -/
def tryPrint (text : String) : IO Bool := do
  let done ← attempt do
    let out ← IO.getStdout
    out.putStr text
    out.flush
  return done.isSome

end Command

end WebLint

open WebLint in
/-- Lint what the arguments name. -/
def main (words : List String) : IO UInt32 := do
  let env ← Command.environment
  let walker := Walk.walker (← Command.ownRules)
  let parser ← Command.parser
  let files ← Command.loadFiles words
  let result := Run.execute env walker parser files words
  Command.store files result.files
  let result :=
    if ← Command.tryPrint result.output then result
    else Run.execute { env with outputIsFull := true } walker parser files words
  IO.eprint result.errors
  return result.status.code.toUInt32
