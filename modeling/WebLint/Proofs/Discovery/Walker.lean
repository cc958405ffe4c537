import WebLint.Discovery
import WebLint.Proofs.Path.Names

/-!
# What is assumed of a walker

Discovery does not depend on how a walker goes about its work, only on what its documentation
promises.  A walk from several paths comes to what the walks from each of them come to.  Below a
directory it comes to every entry that is not skipped and that no skipped directory hides.  The
globs of a walk are asked first whether an entry is skipped, and when one matches the last one that
does decides alone; otherwise the rules about ignored files apply, of which those in the nearest
`.gitignore` file come first.

What is stated here, to be assumed in what follows:

* `Walker.IsLocal` — paths are walked independently of each other;
* `SkipRules.Comes` — the places a walk comes to, given what is skipped;
* `Walker.Follows` — a walker goes by some rules in the way that is documented.
-/

namespace WebLint

/-- Whether all that is in directories has a name. -/
structure Files.WellNamed (fs : Files) : Prop where
  /-- Files are reached by names. -/
  entries : ∀ e ∈ fs.entries, ∀ s ∈ e.1, Path.IsName s
  /-- So are directories. -/
  directories : ∀ d ∈ fs.directories, ∀ s ∈ d, Path.IsName s

/-- Whether a walker treats each path of a walk as it would alone. -/
structure Walker.IsLocal (w : Walker) : Prop where
  /-- What a walk comes to from one path does not depend on the others. -/
  apart (fs : Files) (s : WalkSettings) (paths : List Path) (place : Place) :
    .ok place ∈ w.walk fs s paths ↔ ∃ start ∈ paths, .ok place ∈ w.walk fs s [start]
  /-- The path of a place is the one the walk started from, with names behind it, so that it is
  normal when that one is. -/
  normal {fs : Files} {s : WalkSettings} {start : Path} {place : Place} (hstart : start.IsNormal)
    (h : .ok place ∈ w.walk fs s [start]) : place.path.IsNormal

/-- The words in which it is documented what a walker skips. -/
structure SkipRules where
  /-- Whether a glob, relative to a directory, matches an entry. -/
  isMatch (root : Path) (names : List String) (isDirectory : Bool) (o : Override) : Bool
  /-- Whether the `.gitignore` file of a directory ignores an entry: the last of its lines that
  matches the entry does not keep it. -/
  ignores (fs : Files) (directory names : List String) (isDirectory : Bool) : Bool
  /-- Whether a walk skips an entry. -/
  skips (fs : Files) (s : WalkSettings) (start names : List String) : Bool

namespace SkipRules

/-- The glob that decides about an entry. -/
def decider (r : SkipRules) (fs : Files) (s : WalkSettings) (names : List String) :
    Option Override :=
  s.lastMatch (r.isMatch s.root names (fs.isDirectory names))

/-- Whether there is an entry below a directory. -/
structure IsBelow (fs : Files) (start names : List String) : Prop where
  /-- The directory is on the way to it. -/
  front : start <+: names
  /-- It is not the directory itself. -/
  proper : start.length < names.length
  /-- Something is there. -/
  found : (fs.found? names).isSome = true

/-- The places a walk comes to from one path. -/
inductive Comes (r : SkipRules) (fs : Files) (s : WalkSettings) (start : Path) : Place → Prop
  /-- The path itself, when something is there.  It is never skipped. -/
  | atStart {e : Entry} (hfound : fs.lookup start = .ok e) :
      Comes r fs s start ⟨start, 0, fs.isDirectory start.names⟩
  /-- What is below it, when neither the entry nor a directory on the way to it is skipped. -/
  | below {names : List String} (hdirectory : fs.lookup start = .ok .directory)
      (hbelow : IsBelow fs start.names names)
      (hway : ∀ m, start.names.length < m → m ≤ names.length →
        r.skips fs s start.names (names.take m) = false) :
      Comes r fs s start
        ⟨Path.ofNames names, names.length - start.names.length, fs.isDirectory names⟩

end SkipRules

/-- Whether a walker goes by some rules as it is documented. -/
structure Walker.Follows (w : Walker) (r : SkipRules) : Prop extends w.IsLocal where
  /-- A walk comes to the places that it should. -/
  comes_iff {fs : Files} {s : WalkSettings} {start : Path} {place : Place} (hfs : fs.WellNamed)
    (hstart : start.IsNormal) : .ok place ∈ w.walk fs s [start] ↔ r.Comes fs s start place
  /-- The globs are asked first, and the last one that matches decides alone. -/
  decides {fs : Files} {s : WalkSettings} {start names : List String} {o : Override}
    (h : r.decider fs s names = some o) : r.skips fs s start names = !o.isWanted
  /-- Where no glob matches, the rules about ignored files apply.  Unless there are `.ignore`
  files, those of the `.gitignore` file next to an entry come first, and with `requireGit` off they
  count everywhere. -/
  obeys {fs : Files} {s : WalkSettings} {start names : List String}
    (hbelow : SkipRules.IsBelow fs start names) (hgit : s.gitIgnore = true)
    (hignore : s.ignore = false) (hrequire : s.requireGit = false)
    (hsilent : r.decider fs s names = none)
    (h : r.ignores fs names.dropLast names (fs.isDirectory names) = true) :
    r.skips fs s start names = true

end WebLint
