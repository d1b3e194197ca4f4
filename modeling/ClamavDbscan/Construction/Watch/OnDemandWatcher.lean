import ClamavDbscan.Construction.Scanner.Database
import ClamavDbscan.Construction.Watch.DeferredScanManager
import ClamavDbscan.Library.Transition

/-
This file models `on_demand_watcher` with its manager, the reaper and the event loop.
-/

namespace ClamavDbscan

/-- An operation that is not listed has no effect. -/
inductive Operation where
  | closeForWrite
  | moveTo
  | multiple
  | remove
  | moveFrom
  | unknown
  deriving DecidableEq, Repr

namespace Operation

def isWrite : Operation → Bool
  | closeForWrite | moveTo | multiple => true
  | _ => false

def isRemoval : Operation → Bool
  | remove | moveFrom => true
  | _ => false

end Operation

structure FileEvent where
  path : Str
  operation : Operation
  deriving DecidableEq

/-- The history records what the watcher has handled and what has been put. -/
inductive Observation where
  | received (event : FileEvent)
  | put (path : Str)
  deriving DecidableEq

/-- The inbox holds the events of the current message that are not handled yet, and an exception ends the
watcher. -/
structure OnDemand where
  now : LoopTime
  inbox : List FileEvent
  manager : DeferredScanManager
  reaper : Reaper
  q : FinishableQueue Str
  files : Files
  history : List Observation
  raised : Option PyException

namespace OnDemand

/-- The body of the loop over the events of one message. The events behind an exception have been received
too, and nothing handles them. -/
def handleEvent (state : OnDemand) (event : FileEvent) : OnDemand :=
  let seen := { state with history := .received event :: state.history }
  if event.operation.isWrite then
    { seen with manager := state.manager.scheduleFileScan state.now event.path }
  else if event.operation.isRemoval then
    if startsWith event.path (text "/tmp") then seen
    else
      let cancelled := { seen with manager := state.manager.cancelFileScan event.path }
      match ClamAVDB.removeFile state.files event.path with
      | .ok files => { cancelled with files := files }
      | .error raised =>
          { cancelled with
            inbox := []
            history := state.inbox.reverse.map Observation.received ++ cancelled.history
            raised := some raised }
  else seen

/-- The reaper sleeps while there is nothing to wait for. -/
def nextWait (manager : DeferredScanManager) : Reaper :=
  if manager.waited.isEmpty then .checking else .waiting manager.waited

inductive Label where
  | tick (elapsed : Nat)
  | receive (events : List FileEvent)
  | handle
  | fire (task : Nat)
  | resume (task : Nat)
  | check
  | reap (completed : List Nat)
  | take
  deriving DecidableEq

/-- Only the watcher runs while events of a message are left. -/
def step (state : OnDemand) : Label → Option OnDemand
  | .tick elapsed => some { state with now := state.now + elapsed }
  | .receive events =>
      if state.inbox = [] ∧ state.raised = none then some { state with inbox := events } else none
  | .handle =>
      match state.inbox with
      | [] => none
      | event :: others => some (handleEvent { state with inbox := others } event)
  | .fire number =>
      if state.inbox = [] then
        match state.manager.tasks[number]? with
        | none => none
        | some task =>
            (task.fire state.now).map fun after =>
              { state with
                manager := { state.manager with tasks := state.manager.tasks.set number after } }
      else none
  | .resume number =>
      if state.inbox = [] then
        match state.manager.tasks[number]? with
        | none => none
        | some task =>
            (task.resume state.now state.q).map fun (after, q, put) =>
              { state with
                manager := { state.manager with tasks := state.manager.tasks.set number after }
                q := q
                history := (put.map Observation.put).toList ++ state.history }
      else none
  | .check =>
      if state.inbox = [] ∧ state.reaper = .checking then
        some { state with reaper := nextWait state.manager }
      else none
  | .reap completed =>
      match state.reaper with
      | .waiting snapshot =>
          -- The wait reports its finished tasks as a set, so any order can occur.
          if state.inbox = [] ∧ completed ≠ [] ∧
              completed.Perm (snapshot.filter state.manager.doneTask) then
            let (manager, alive) := state.manager.reapPass completed
            some { state with
              manager := manager, reaper := if alive then nextWait manager else .dead }
          else none
      | _ => none
  | .take =>
      if state.inbox = [] then
        match state.q.getNowait with
        | (.ok _, after) => some { state with q := after }
        | (.error _, _) => none
      else none

/-- The watcher starts with an empty manager and the unfinished queue of a `--watch` run. -/
def start (state : OnDemand) : Prop :=
  state.inbox = [] ∧ state.manager = .initial ∧ state.reaper = .checking ∧ state.q = .initial ∧
    state.history = [] ∧ state.raised = none

/-- This is the watcher of an empty database before its first message. -/
def atStart : OnDemand := ⟨0, [], .initial, .checking, .initial, fun _ => none, [], none⟩

def system : Transition.System OnDemand Label := ⟨start, step⟩

end OnDemand

end ClamavDbscan
