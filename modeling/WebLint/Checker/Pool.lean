import WebLint.Checker

/-!
# Checkers at work side by side

A checker has a task for each of its files.  It works on a file in steps: it begins,
and then it reads the file, checks the text it has read, and writes a repaired text
back, as often as there are rounds of fixes.  The tasks of a *pool* are all under way
at once, and their steps follow each other in any order: that of the turns that its
workers take.  When a task fails its checker does, and begins no more files.  What
the turns leave undone is done in the order of the checkers and of their files, as a
single worker does all of it.

The checkers of a run share one pool, unless they are to repair files of both:
then each has a pool of its own, and they follow each other.
-/

namespace WebLint

/-- A file for a checker. -/
structure Task where
  /-- The place of the checker among those at work. -/
  place : Nat
  /-- The file. -/
  file : Path
  deriving DecidableEq, Repr, Inhabited

namespace Checker

/-! ## Steps of one task -/

/-- How far a checker has come with a file. -/
inductive Stage where
  /-- It has not begun. -/
  | waiting
  /-- It is about to read the file, with some rounds of fixes left. -/
  | reading (rounds : Nat)
  /-- It has read a text and is about to check it. -/
  | checking (rounds : Nat) (text : Text)
  /-- It is about to save what a round of fixes has made of a text. -/
  | saving (rounds : Nat) (before : Text) (made : Fixing.Result)
  /-- It is done. -/
  | finished (result : Except Failure (List Diagnostic))
  deriving Inhabited

/-- Why a task that is done has failed, if it has. -/
def Stage.failure? : Stage → Option Failure
  | .finished (.error e) => some e
  | _ => none

/-- What a task that is done has found. -/
def Stage.found : Stage → List Diagnostic
  | .finished (.ok found) => found
  | _ => []

/-- How many rounds of fixes a file may take. -/
def roundsOf (plan : Plan) : Nat := if plan.fix then maxRounds else 0

/-- Read a file. -/
def readStep (file : Path) (rounds : Nat) (fs : Files) : Stage :=
  match fs.read file with
  | .error e => .finished (.error (.unreadable file e))
  | .ok text => .checking rounds text

/-- Check a text, and repair it as long as there are rounds left. -/
def checkStep (c : Checker) (parser : Parser) (plan : Plan) (file : Path) (text : Text) :
    Nat → Logged Stage
  | 0 => do return .finished (← c.checkText parser plan file text)
  | rounds + 1 => do
    match ← c.checkText parser plan file text with
    | .error e => return .finished (.error e)
    | .ok found => return .saving rounds text (← Fixing.applyLogged (Fixing.fixesOf found) text)

/-- Save a repaired text.  There is another round when a fix has been skipped. -/
def saveStep (file : Path) (rounds : Nat) (before : Text) (made : Fixing.Result) (fs : Files) :
    Logged (Files × Stage) := do
  match ← save file before made.text fs with
  | .error e => return (fs, .finished (.error e))
  | .ok fs => return (fs, .reading (if made.skipped then rounds else 0))

/-- A step of a checker at work on a file. -/
def advance (c : Checker) (parser : Parser) (plan : Plan) (file : Path) (fs : Files) :
    Stage → Logged (Files × Stage)
  | .waiting => return (fs, .reading (roundsOf plan))
  | .reading rounds => return (fs, readStep file rounds fs)
  | .checking rounds text => do return (fs, ← c.checkStep parser plan file text rounds)
  | .saving rounds before made => saveStep file rounds before made fs
  | .finished result => return (fs, .finished result)

/-- How many steps a task takes at most. -/
def maxTurns : Nat := 3 * maxRounds + 3

/-! ## Many tasks -/

/-- Tasks under way. -/
structure Pool where
  /-- The files. -/
  files : Files
  /-- How far each task is. -/
  stage : Task → Stage
  /-- Why the checker at a place has failed, if it has. -/
  failure : Nat → Option Failure
  /-- Whether the checker at a place has begun. -/
  begun : Nat → Bool

namespace Pool

/-- No task has taken a step yet. -/
def start (fs : Files) : Pool := ⟨fs, fun _ => .waiting, fun _ => none, fun _ => false⟩

/-- A checker begins, unless it has before. -/
def begin (plan : Plan) (c : Checker) (place : Nat) (s : Pool) : Logged Pool :=
  if s.begun place then return s
  else do
    Logged.log .debug .checking
      ("Running the " ++ c.name ++ " checker on " ++ toString (plan.paths c.language).length ++
        " files")
    return { s with begun := fun i => i == place || s.begun i }

/-- Whether a task has a step to take: it is under way, or it may begin. -/
def isReady (s : Pool) (t : Task) : Bool :=
  match s.stage t with
  | .waiting => (s.failure t.place).isNone
  | .finished _ => false
  | _ => true

/-- The pool once a task has taken a step. -/
def stepped (s : Pool) (t : Task) (files : Files) (stage : Stage) : Pool :=
  { s with
    files := files
    stage := fun u => if u = t then stage else s.stage u
    failure := fun i => if i = t.place then (s.failure i).or stage.failure? else s.failure i }

/-- A task takes a step, if it has one to take and is one of those at work. -/
def step (parser : Parser) (plan : Plan) (checkers : List Checker) (s : Pool) (t : Task) :
    Logged Pool :=
  match checkers[t.place]? with
  | none => return s
  | some c =>
    if (plan.paths c.language).contains t.file && s.isReady t then do
      let s ← s.begin plan c t.place
      let (files, stage) ← c.advance parser plan t.file s.files (s.stage t)
      return s.stepped t files stage
    else return s

/-- Tasks take steps, in the order of some turns. -/
def play (parser : Parser) (plan : Plan) (checkers : List Checker) :
    List Task → Pool → Logged Pool
  | [], s => return s
  | t :: turns, s => do play parser plan checkers turns (← s.step parser plan checkers t)

/-- What comes of a checker whose tasks are done. -/
def outcome (plan : Plan) (c : Checker) (place : Nat) (s : Pool) :
    Except Failure (List Diagnostic) :=
  match s.failure place with
  | some e => .error e
  | none =>
    .ok (Diagnostic.sort ((plan.paths c.language).flatMap fun p => (s.stage ⟨place, p⟩).found))

/-- The turns that a checker needs for some files, one file after the other. -/
def turnsFor (place : Nat) (paths : List Path) : List Task :=
  paths.flatMap fun p => List.replicate maxTurns ⟨place, p⟩

/-- Do what a checker has left undone, and collect its batch. -/
def finish (parser : Parser) (plan : Plan) (checkers : List Checker) (c : Checker) (place : Nat)
    (s : Pool) : Logged (Pool × Batch) := do
  let s ← s.begin plan c place
  let s ← s.play parser plan checkers (turnsFor place (plan.paths c.language))
  let batch ← Batch.collect c.name (s.outcome plan c place)
    (Diagnostic.toRecord (some s.files.cwd))
  return (s, batch)

/-- Do what the checkers from a place on have left undone. -/
def finishFrom (parser : Parser) (plan : Plan) (checkers : List Checker) :
    Nat → List Checker → Pool → Logged (Pool × List Batch)
  | _, [], s => return (s, [])
  | place, c :: cs, s => do
    let (s, first) ← s.finish parser plan checkers c place
    let (s, rest) ← finishFrom parser plan checkers (place + 1) cs s
    return (s, first :: rest)

end Pool

/-! ## All checkers -/

/-- The batches of some checkers at work side by side. -/
def sideBySide (turns : List Task) (parser : Parser) (checkers : List Checker) (plan : Plan)
    (fs : Files) : Logged (Files × List Batch) := do
  let s ← (Pool.start fs).play parser plan checkers turns
  let (s, batches) ← s.finishFrom parser plan checkers 0 checkers
  return (s.files, batches)

/-- The turns of the checker at a place, when it has a pool of its own. -/
def turnsAt (place : Nat) (turns : List Task) : List Task :=
  (turns.filter (·.place == place)).map fun t => ⟨0, t.file⟩

/-- The batches of the checkers from a place on, each at work on its files when the
one before it is done. -/
def inSequence (turns : List Task) (parser : Parser) (plan : Plan) :
    Nat → List Checker → Files → Logged (Files × List Batch)
  | _, [], fs => return (fs, [])
  | place, c :: cs, fs => do
    let (fs, first) ← sideBySide (turnsAt place turns) parser [c] plan fs
    let (fs, rest) ← inSequence turns parser plan (place + 1) cs fs
    return (fs, first ++ rest)

/-- Run some checkers, whose workers take turns in some order. -/
def runOn (turns : List Task) (parser : Parser) (checkers : List Checker) (plan : Plan)
    (fs : Files) : Logged (Files × List Batch) :=
  if plan.fix && plan.hasSharedPaths then do
    Logged.log .debug .checking "Running the checkers sequentially"
    inSequence turns parser plan 0 checkers fs
  else sideBySide turns parser checkers plan fs

/-- Run some checkers with a single worker. -/
def run (parser : Parser) (checkers : List Checker) (plan : Plan) (fs : Files) :
    Logged (Files × List Batch) :=
  runOn [] parser checkers plan fs

end Checker

end WebLint
