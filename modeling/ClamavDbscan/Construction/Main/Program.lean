import ClamavDbscan.Construction.Main.ScanLoop
import ClamavDbscan.Construction.Scanner.Session

/-
This file models the whole of `main`: the gathering, the scan loop with the calls of its tasks, and the
watcher, which all share one queue.
-/

namespace ClamavDbscan

variable {κ : Type}

/-- The gathering puts the files of one directory after the other. -/
structure ProgramConfig where
  maxScans : Int
  watch : Bool
  directories : List (List Str)

/-- The gathering has some directories left, or the loop has begun. -/
inductive Stage where
  | gathering (left : List (List Str))
  | scanning
  deriving DecidableEq

/-- A scan task has the number of its call of `scan_file`. -/
structure Program (κ : Type) where
  stage : Stage
  session : Session κ
  loop : ScanLoop

namespace Program

/-- The loop of `main` has no task before it begins. -/
def beforeLoop : ScanLoop := ⟨.initial, [], [], [], none, .initial, [], .waiting⟩

def putAll (q : FinishableQueue Str) (paths : List Str) : FinishableQueue Str :=
  paths.foldl (fun q path => (q.put path).2) q

/-- The program has one queue. -/
def setQueue (program : Program κ) (q : FinishableQueue Str) : Program κ :=
  { program with
    session := { program.session with watch := { program.session.watch with q := q } }
    loop := { program.loop with filesToScan := q } }

/-- A new scan task is a call of `scan_file` with its default arguments. -/
def newCall (task : ScanTask) : Call κ := ⟨task.path, true, .created, none, false⟩

/-- The tasks that the loop has created are called. -/
def setLoop (program : Program κ) (loop : ScanLoop) : Program κ :=
  { program with
    session := { program.session with
      watch := { program.session.watch with q := loop.filesToScan }
      calls := program.session.calls ++
        (loop.scans.drop program.session.calls.length).map newCall }
    loop := loop }

def finishedOutcome (call : Call κ) : Option Outcome :=
  match call.phase with
  | .finished outcome => some outcome
  | _ => none

/-- A task ends with the outcome of its call, which has the path of the task; the loop asks for no other. -/
def outcomes (session : Session κ) (number : Nat) (path : Str) : Outcome :=
  (((session.calls[number]?).filter fun call => decide (call.path = path)).bind finishedOutcome).getD
    (.error ⟨.assertionError, []⟩)

def scanConfig (config : ProgramConfig) (session : Session κ) : ScanConfig :=
  ⟨config.maxScans, config.watch, outcomes session⟩

inductive Label (κ : Type) where
  -- The gathering puts the files of a directory and sleeps.
  | gather
  -- The gathering is complete, and the loop begins.
  | scanFiles
  | watch (label : OnDemand.Label)
  | change (path : Str) (entry : Except PyException (Entry κ))
  | advance (number : Nat) (now : Str)
  | read (number : Nat)
  | stepReady (number : Nat)
  | resume (completed : List (TaskName × ℚ))

/-- The queue is finished unless there is a watcher. -/
def beginLoop (config : ProgramConfig) (program : Program κ) : Program κ :=
  let q := program.session.watch.q
  { program with stage := .scanning }.setLoop
    (ScanLoop.enter config.maxScans
      { program.loop with filesToScan := if config.watch then q else q.finish.2 })

/-- The last step of a call ends its task. -/
def advance (config : ProgramConfig) (clamd : Clamd κ) (program : Program κ) (number : Nat)
    (now : Str) : Option (Program κ) :=
  (Session.step clamd program.session (.advance number now)).bind fun session =>
    match (session.calls[number]?).bind finishedOutcome with
    | none => some { program with session := session }
    | some _ =>
        (ScanLoop.step (scanConfig config session) program.loop (.finishScan number)).map fun loop =>
          { program with session := session, loop := loop }

/-- Only the watcher runs while events of a message are left, and the loop itself takes the items. -/
def step (config : ProgramConfig) (clamd : Clamd κ) (program : Program κ) (label : Label κ) :
    Option (Program κ) :=
  if program.loop.control = .waiting then
    match label with
    | .gather =>
        match program.stage with
        | .gathering (paths :: left) =>
            if program.session.watch.inbox = [] then
              some { program.setQueue (putAll program.session.watch.q paths) with
                stage := .gathering left }
            else none
        | _ => none
    | .scanFiles =>
        if program.stage = .gathering [] ∧ program.session.watch.inbox = [] then
          some (program.beginLoop config)
        else none
    | .watch label =>
        if config.watch = true ∧ label ≠ .take then
          (Session.step clamd program.session (.watch label)).map fun session =>
            { program with session := session }.setQueue session.watch.q
        else none
    | .change path entry =>
        (Session.step clamd program.session (.change path entry)).map fun session =>
          { program with session := session }
    | .advance number now => program.advance config clamd number now
    | .read number =>
        (Session.step clamd program.session (.read number)).map fun session =>
          { program with session := session }
    | .stepReady number =>
        if program.session.watch.inbox = [] then
          (program.loop.stepReady number).map program.setLoop
        else none
    | .resume completed =>
        if program.session.watch.inbox = [] then
          (ScanLoop.step (scanConfig config program.session) program.loop (.resume completed)).map
            program.setLoop
        else none
  else none

/-- The database may hold rows of earlier runs. -/
def start (config : ProgramConfig) (files : Files) (program : Program κ) : Prop :=
  program.stage = .gathering config.directories ∧ OnDemand.start program.session.watch ∧
    program.session.watch.files = files ∧ program.session.calls = [] ∧
    program.session.removed = (fun _ => false) ∧ program.loop = beforeLoop

def system (config : ProgramConfig) (clamd : Clamd κ) (files : Files) :
    Transition.System (Program κ) (Label κ) :=
  ⟨start config files, step config clamd⟩

end Program

end ClamavDbscan
