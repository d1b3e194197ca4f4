import ClamavDbscan.Construction.Queue.FinishableQueue
import ClamavDbscan.Construction.Text
import Mathlib.Data.List.AList

/-
This file models `DeferredScanManager` with the life of its asyncio tasks.
-/

namespace ClamavDbscan

/-- Loop time counts nanoseconds. -/
abbrev LoopTime := Nat

def seconds (count : Nat) : LoopTime := count * 1000000000

inductive Ending where
  | returned
  | raised
  | cancelled
  deriving DecidableEq, Repr

/-- A task is created, sleeps until its due time, is woken, and ends. -/
inductive TaskPhase where
  | created
  | sleeping (due : LoopTime)
  | woken
  | finished (ending : Ending)
  deriving DecidableEq, Repr

/-- The creation time is a record for statements about the delay. -/
structure DeferredTask where
  path : Str
  phase : TaskPhase
  cancelRequested : Bool
  createdAt : LoopTime
  deriving DecidableEq

namespace DeferredTask

def done (task : DeferredTask) : Bool :=
  match task.phase with
  | .finished _ => true
  | _ => false

/-- A live task is neither finished nor asked to stop. -/
def live (task : DeferredTask) : Bool := !task.done && !task.cancelRequested

/-- A request to a finished task has no effect. -/
def cancel (task : DeferredTask) : DeferredTask :=
  if task.done then task else { task with cancelRequested := true }

/-- The timer resolves a sleep that is due and not cancelled. -/
def fire (task : DeferredTask) (now : LoopTime) : Option DeferredTask :=
  match task.phase with
  | .sleeping due =>
      if due ≤ now ∧ task.cancelRequested = false then some { task with phase := .woken } else none
  | _ => none

/-- A task that prints its path last ends with an exception if the path does not encode. -/
def printLast (task : DeferredTask) : DeferredTask :=
  { task with phase := .finished (if task.path.any isSurrogate then .raised else .returned) }

/-- The next step of `deferred_scan_file` also gives the path that it has put. -/
def resume (task : DeferredTask) (now : LoopTime) (q : FinishableQueue Str) :
    Option (DeferredTask × FinishableQueue Str × Option Str) :=
  match task.phase, task.cancelRequested with
  | .created, true => some ({ task with phase := .finished .cancelled }, q, none)
  | .created, false =>
      -- The path is printed before the `try`.
      if task.path.any isSurrogate then some ({ task with phase := .finished .raised }, q, none)
      else some ({ task with phase := .sleeping (now + seconds 10) }, q, none)
  -- The `except` clause swallows a cancellation that arrives at the sleep.
  | .sleeping _, true => some (task.printLast, q, none)
  | .sleeping _, false => none
  | .woken, true => some (task.printLast, q, none)
  | .woken, false =>
      match q.put task.path with
      | (.ok (), after) => some (task.printLast, after, some task.path)
      | (.error _, after) => some ({ task with phase := .finished .raised }, after, none)
  | .finished _, _ => none

end DeferredTask

/-- The dictionaries hold task numbers, and every task ever created keeps its number. -/
structure DeferredScanManager where
  scans : AList fun _ : Str => Nat
  pathsByScan : AList fun _ : Nat => Str
  tasks : List DeferredTask
  deriving DecidableEq

namespace DeferredScanManager

def initial : DeferredScanManager := ⟨∅, ∅, []⟩

def scheduleFileScan (manager : DeferredScanManager) (now : LoopTime) (filePath : Str) :
    DeferredScanManager :=
  if startsWith filePath (text "/tmp") then manager
  else if (manager.scans.lookup filePath).isSome then manager
  else
    { scans := manager.scans.insert filePath manager.tasks.length
      pathsByScan := manager.pathsByScan.insert manager.tasks.length filePath
      tasks := manager.tasks ++ [⟨filePath, .created, false, now⟩] }

def cancelFileScan (manager : DeferredScanManager) (filePath : Str) : DeferredScanManager :=
  match manager.scans.lookup filePath with
  | none => manager
  | some number =>
      match manager.tasks[number]? with
      | none => manager
      | some task => { manager with tasks := manager.tasks.set number task.cancel }

/-- The values of `scans` are the tasks that the reaper waits for. -/
def waited (manager : DeferredScanManager) : List Nat := manager.scans.entries.map (·.2)

def doneTask (manager : DeferredScanManager) (task : Nat) : Bool :=
  (manager.tasks[task]?).any DeferredTask.done

/-- Awaiting a finished task, printing its path and deleting its entries can raise and end the reaper. -/
def reapOne (manager : DeferredScanManager) (task : Nat) : Option DeferredScanManager :=
  match (manager.tasks[task]?).map DeferredTask.phase, manager.pathsByScan.lookup task with
  | some (.finished .cancelled), _ => none
  | _, none => none
  | phase, some filePath =>
      -- The handler prints the path of a task that has raised.
      if phase = some (.finished .raised) ∧ filePath.any isSurrogate = true then none
      else if (manager.scans.lookup filePath).isSome then
        some { manager with
          scans := manager.scans.erase filePath, pathsByScan := manager.pathsByScan.erase task }
      else none

/-- One pass goes over the completed tasks and stops where an exception escapes. -/
def reapPass : List Nat → DeferredScanManager → DeferredScanManager × Bool
  | [], manager => (manager, true)
  | task :: others, manager =>
      match manager.reapOne task with
      | some after => reapPass others after
      | none => (manager, false)

end DeferredScanManager

/-- The reaper checks for scans, waits for a snapshot of them, or has ended. -/
inductive Reaper where
  | checking
  | waiting (snapshot : List Nat)
  | dead
  deriving DecidableEq, Repr

end ClamavDbscan
