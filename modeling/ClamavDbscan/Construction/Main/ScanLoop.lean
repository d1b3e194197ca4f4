import ClamavDbscan.Construction.Queue.FinishableQueue
import ClamavDbscan.Construction.Scanner.Reply
import ClamavDbscan.Library.Transition
import Mathlib.Algebra.Order.Ring.Rat

/-
This file models the scan loop of `main` with its tasks, output files and logger.
-/

namespace ClamavDbscan

/-- The last output time and the last count are always set together. -/
structure Logger where
  count : Nat
  last : Option (ℚ × Nat)
  deriving DecidableEq

namespace Logger

def initial : Logger := ⟨0, none⟩

/-- The message goes to the terminal, and its speed divides by the time since the last output. -/
def log (logger : Logger) (force : Bool) (now : ℚ) : Except PyException Logger :=
  let counted := { logger with count := logger.count + 1 }
  match logger.last with
  | none => .ok { counted with last := some (now, counted.count) }
  | some (lastOutput, _) =>
      if force || decide (lastOutput + 10 < now) then
        if now - lastOutput = 0 then .error ⟨.zeroDivisionError, text "float division by zero"⟩
        else .ok { counted with last := some (now, counted.count) }
      else .ok counted

end Logger

/-- These are the four files that `main` opens for its results. -/
inductive OutputFile where
  | ok
  | infected
  | error
  | fsError
  deriving DecidableEq, Repr

/-- A line that is printed to a file is one record. -/
abbrev Record := OutputFile × Str

/-- This is what `scan_file` returns or raises for one path. -/
abbrev Outcome := Except PyException ClamAVDBFileMetadata

/-- A result is printed by its status. -/
def resultRecord (result : ClamAVDBFileMetadata) : Option Record :=
  if result.status = text "OK" then some (.ok, result.logLine)
  else if result.status = text "FOUND" then some (.infected, result.logLine)
  else if result.status = text "ERROR" then some (.error, result.logLine)
  else none

/-- Three exceptions have a handler. -/
def exceptionRecord (raised : PyException) : Option Record :=
  match raised.kind with
  | .notRegularFileError => some (.fsError, text "Not Regular File: " ++ raised.message)
  | .fileNotFoundError => some (.fsError, text "File Not Found: " ++ raised.message)
  | .permissionError => some (.fsError, text "Permission Error: " ++ raised.message)
  | _ => none

/-- The loop logs before it prints, and what has no handler escapes. -/
def reportOutcome (logger : Logger) (outcome : Outcome) (now : ℚ) :
    Except PyException (Logger × Record) :=
  match outcome with
  | .ok result =>
      (logger.log false now).bind fun logged =>
        match resultRecord result with
        | some record => .ok (logged, record)
        | none => .error ⟨.assertionError, []⟩
  | .error raised =>
      match exceptionRecord raised with
      | some record => (logger.log true now).map fun logged => (logged, record)
      | none => .error raised

/-- The set `tasks` holds scans and the task that waits for the queue. -/
inductive TaskName where
  | scan (number : Nat)
  | ready (number : Nat)
  deriving DecidableEq, Repr

/-- A scan task has an outcome when it is finished. -/
structure ScanTask where
  path : Str
  outcome : Option Outcome

/-- A task that awaits the queue is created, waits for the event, and ends. -/
inductive ReadyPhase where
  | created
  | waiting
  | finished
  deriving DecidableEq, Repr

inductive Control where
  | waiting
  | returned
  | raised (exception : PyException)
  deriving DecidableEq

/-- The fields are the variables of `main`, and every task ever created keeps its number. -/
structure ScanLoop where
  filesToScan : FinishableQueue Str
  scans : List ScanTask
  readyTasks : List ReadyPhase
  tasks : List TaskName
  fileReadyTask : Option Nat
  logger : Logger
  written : List Record
  control : Control

/-- The environment decides the outcome of each scan task by its number and the path that it scans. -/
structure ScanConfig where
  maxScans : Int
  watch : Bool
  outcome : Nat → Str → Outcome

namespace ScanLoop

/-- The task for a path joins the set. -/
def startScan (loop : ScanLoop) (path : Str) (queue : FinishableQueue Str) : ScanLoop :=
  { loop with
    filesToScan := queue
    scans := loop.scans ++ [⟨path, none⟩]
    tasks := loop.tasks ++ [.scan loop.scans.length] }

/-- The inner loop starts scans; each round takes one item, so the length is enough fuel. -/
def fill (maxScans : Int) : Nat → ScanLoop → ScanLoop
  | 0, loop => loop
  | fuel + 1, loop =>
      if (loop.tasks.length : Int) < maxScans ∧ 0 < loop.filesToScan.len then
        match loop.filesToScan.getNowait with
        | (.ok path, queue) => fill maxScans fuel (loop.startScan path queue)
        | (.error _, _) => loop
      else loop

/-- An empty queue that is not finished is awaited by at most one task. -/
def awaitQueue (loop : ScanLoop) : ScanLoop :=
  if loop.filesToScan.len = 0 ∧ loop.filesToScan.finished = false ∧ loop.fileReadyTask = none then
    { loop with
      readyTasks := loop.readyTasks ++ [.created]
      tasks := loop.tasks ++ [.ready loop.readyTasks.length]
      fileReadyTask := some loop.readyTasks.length }
  else loop

/-- From its test the loop runs to the next `asyncio.wait`, which rejects an empty set. -/
def enter (maxScans : Int) (loop : ScanLoop) : ScanLoop :=
  if loop.filesToScan.finished = true ∧ loop.tasks = [] then { loop with control := .returned }
  else
    let next := (fill maxScans loop.filesToScan.len loop).awaitQueue
    if next.tasks = [] then
      { next with control := .raised ⟨.valueError, text "Set of Tasks/Futures is empty."⟩ }
    else { next with control := .waiting }

/-- The body of the loop over the completed tasks. -/
def reportOne (loop : ScanLoop) (task : TaskName) (now : ℚ) : Except PyException ScanLoop :=
  match task with
  | .ready number =>
      if loop.fileReadyTask = some number then .ok { loop with fileReadyTask := none } else .ok loop
  | .scan number =>
      match (loop.scans[number]?).bind ScanTask.outcome with
      | some outcome =>
          (reportOutcome loop.logger outcome now).map fun (logger, record) =>
            { loop with logger := logger, written := loop.written ++ [record] }
      | none => .ok loop

/-- An exception ends `main` in the middle of the completed tasks. -/
def reportAll : List (TaskName × ℚ) → ScanLoop → ScanLoop
  | [], loop => loop
  | (task, now) :: others, loop =>
      match loop.reportOne task now with
      | .ok after => reportAll others after
      | .error raised => { loop with control := .raised raised }

def doneTask (loop : ScanLoop) : TaskName → Bool
  | .scan number => (loop.scans[number]?).any fun task => task.outcome.isSome
  | .ready number => loop.readyTasks[number]? == some .finished

/-- The pending tasks become the set before the completed ones are reported. -/
def swap (loop : ScanLoop) : ScanLoop :=
  { loop with tasks := loop.tasks.filter fun task => !loop.doneTask task }

/-- The task looks at the event, or is registered with it until the event wakes it. -/
def stepReady (loop : ScanLoop) (number : Nat) : Option ScanLoop :=
  let event := loop.filesToScan.readyEvent
  match loop.readyTasks[number]? with
  | some .created =>
      if event.value then some { loop with readyTasks := loop.readyTasks.set number .finished }
      else
        some { loop with
          readyTasks := loop.readyTasks.set number .waiting
          filesToScan := { loop.filesToScan with
            readyEvent := { event with waiting := event.waiting ++ [number] } } }
  | some .waiting =>
      if number ∈ event.resolved then
        some { loop with readyTasks := loop.readyTasks.set number .finished }
      else none
  | _ => none

/-- Each completed task of a wait comes with the time that the logger would read for it. -/
inductive Label where
  | finishScan (number : Nat)
  | stepReady (number : Nat)
  | put (path : Str)
  | resume (completed : List (TaskName × ℚ))

/-- While `main` waits its tasks go on, and it resumes with those that are done. -/
def step (config : ScanConfig) (loop : ScanLoop) (label : Label) : Option ScanLoop :=
  if loop.control = .waiting then
    match label with
    | .finishScan number =>
        match loop.scans[number]? with
        | some ⟨path, none⟩ =>
            some { loop with scans := loop.scans.set number ⟨path, some (config.outcome number path)⟩ }
        | _ => none
    | .stepReady number => loop.stepReady number
    | .put path =>
        if config.watch then some { loop with filesToScan := (loop.filesToScan.put path).2 } else none
    | .resume completed =>
        -- The completed tasks are a set, so any order can occur.
        if completed ≠ [] ∧ (completed.map Prod.fst).Perm (loop.tasks.filter loop.doneTask) then
          let reported := reportAll completed loop.swap
          if reported.control = .waiting then some (reported.enter config.maxScans)
          else some reported
        else none
  else none

/-- The queue holds the gathered files, and without `--watch` it is finished. -/
def gathered (config : ScanConfig) (paths : List Str) : FinishableQueue Str :=
  let filled := paths.foldl (fun queue path => (queue.put path).2) .initial
  if config.watch then filled else filled.finish.2

def atStart (config : ScanConfig) (paths : List Str) : ScanLoop :=
  enter config.maxScans ⟨gathered config paths, [], [], [], none, .initial, [], .waiting⟩

def system (config : ScanConfig) (paths : List Str) : Transition.System ScanLoop Label :=
  ⟨(· = atStart config paths), step config⟩

end ScanLoop

end ClamavDbscan
