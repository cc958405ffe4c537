import WebLint.Path

/-!
# Files

The files a run reads and writes, as a value: a working directory, and the
contents of every file by the names that lead to it from the root.  A
directory is there when a file lies in it or when it is listed itself.  Looking
a path up walks it name by name, so that a path through a file, or a slash
behind one, leads nowhere.  A file is written as a whole or not at all.
-/

namespace WebLint

/-- What a file holds. -/
inductive Contents where
  /-- Text. -/
  | text (text : Text)
  /-- Bytes that are no text. -/
  | binary (bytes : List UInt8)
  deriving DecidableEq, Inhabited

/-- The contents of some bytes: text if they are its UTF-8 form. -/
def Contents.ofBytes (bytes : List UInt8) : Contents :=
  match String.fromUTF8? ⟨bytes.toArray⟩ with
  | some s => .text s.toList
  | none => .binary bytes

/-- Why a file cannot be read or written. -/
inductive FileError where
  /-- Nothing is there. -/
  | notFound
  /-- The path leads through a file. -/
  | notDirectory
  /-- A directory is there. -/
  | isDirectory
  /-- The file holds no text. -/
  | notText
  /-- The file may not be written. -/
  | denied
  deriving DecidableEq, Repr, Inhabited

/-- What a user is told about an error. -/
def FileError.message : FileError → String
  | .notFound => "No such file or directory (os error 2)"
  | .notDirectory => "Not a directory (os error 20)"
  | .isDirectory => "Is a directory (os error 21)"
  | .notText => "stream did not contain valid UTF-8"
  | .denied => "Permission denied (os error 13)"

/-- A working directory and some files. -/
structure Files where
  /-- The working directory. -/
  cwd : Path
  /-- The contents of the files, by the names from the root. -/
  entries : List (List String × Contents)
  /-- Directories that need not hold any file, by the names from the root. -/
  directories : List (List String) := []
  /-- The files that may not be written, by the names from the root. -/
  readOnly : List (List String) := []
  deriving Inhabited

/-- What is found at the end of a path. -/
inductive Entry where
  | directory
  | file (contents : Contents)
  deriving Inhabited

namespace Files

/-- The contents of the file at some names. -/
def file? (fs : Files) (names : List String) : Option Contents :=
  (fs.entries.find? (·.1 == names)).map (·.2)

/-- Whether some names lead to a directory: the working directory, one that is
listed or that some file lies in, or one of those these lie in. -/
def isDirectory (fs : Files) (names : List String) : Bool :=
  (fs.cwd.names :: fs.directories).any names.isPrefixOf ||
    fs.entries.any fun e => names.isPrefixOf e.1 && e.1.length != names.length

/-- What is found at some names. -/
def found? (fs : Files) (names : List String) : Option Entry :=
  if fs.isDirectory names then some .directory else (fs.file? names).map .file

/-- Follow the parts of a path from the directory `dir`. -/
def follow (fs : Files) (dir : List String) :
    List (List Char) → Except FileError (List String)
  | [] => .ok dir
  | part :: parts =>
    match fs.found? dir with
    | none => .error .notFound
    | some (.file _) => .error .notDirectory
    | some .directory =>
      match Path.Component.ofPart part with
      | none => follow fs dir parts
      | some c => follow fs (Path.step dir c) parts

/-- The names a path leads to. -/
def resolve (fs : Files) (p : Path) : Except FileError (List String) :=
  match p.spelling.toList with
  | [] => .error .notFound
  | '/' :: rest => fs.follow [] (Path.splitSlash rest)
  | text => fs.follow fs.cwd.names (Path.splitSlash text)

/-- What is found at the end of a path. -/
def lookup (fs : Files) (p : Path) : Except FileError Entry :=
  match fs.resolve p with
  | .error e => .error e
  | .ok names =>
    match fs.found? names with
    | some e => .ok e
    | none => .error .notFound

/-- Whether something is found at the end of a path. -/
def exists? (fs : Files) (p : Path) : Bool := (fs.lookup p).isOk

/-- The text of a file. -/
def read (fs : Files) (p : Path) : Except FileError Text :=
  match fs.lookup p with
  | .error e => .error e
  | .ok .directory => .error .isDirectory
  | .ok (.file (.text t)) => .ok t
  | .ok (.file (.binary _)) => .error .notText

/-- The files with other contents at some names. -/
def put (fs : Files) (names : List String) (contents : Contents) : Files :=
  if fs.entries.any (·.1 == names) then
    { fs with entries := fs.entries.map fun e => if e.1 == names then (names, contents) else e }
  else { fs with entries := fs.entries ++ [(names, contents)] }

/-- Why nothing can be written to the end of a path, if nothing can. -/
def refusal (fs : Files) (p : Path) : Option FileError :=
  match fs.resolve p with
  | .error e => some e
  | .ok names =>
    if fs.isDirectory names then some .isDirectory
    else if fs.readOnly.contains names then some .denied
    else none

/-- The files after a text has been written to the end of a path.  They stay as they
are when nothing can be written there. -/
def write (fs : Files) (p : Path) (t : Text) : Files :=
  match fs.resolve p with
  | .ok names => if (fs.refusal p).isNone then fs.put names (.text t) else fs
  | .error _ => fs

/-- The files with one more, or with other contents of one.  Its directories
are made with it. -/
def add (fs : Files) (p : Path) (contents : Contents) : Files :=
  fs.put (Path.namesFrom fs.cwd.names p) contents

end Files

end WebLint
