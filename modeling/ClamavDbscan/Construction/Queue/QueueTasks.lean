import ClamavDbscan.Construction.Queue.FinishableQueue
import ClamavDbscan.Library.Transition

/-
This file models the tasks that use a `FinishableQueue` and the cancellation of waiting tasks.
-/

namespace ClamavDbscan

/-- A suspended call of `get` ends in one of these ways. -/
inductive GetOutcome (T : Type) where
  | returned (item : T)
  | queueEmpty
  | cancelled
  deriving DecidableEq

/-- A call of `get` has suspended on its future. -/
structure Getter (T : Type) where
  cancelRequested : Bool
  outcome : Option (GetOutcome T)
  deriving DecidableEq

/-- The getters are numbered like the futures, and the waits for the event are numbered too. The
items that have been accepted and those that have been handed out are records for statements; an
item goes to a call that returns at once or to the future of a getter. -/
structure QueueTasks (T : Type) where
  queue : FinishableQueue T
  getters : List (Getter T)
  waits : Nat
  accepted : List T
  handed : List (T × Option Nat)
  deriving DecidableEq

namespace QueueTasks

variable {T : Type}

def initial : QueueTasks T := ⟨.initial, [], 0, [], []⟩

/-- The tasks call the methods, and a task that is suspended in `get` is cancelled or resumed. -/
inductive Label (T : Type) where
  | put (item : T)
  | get
  | getNowait
  | finish
  | untilItemReady
  | cancel (getter : Nat)
  | resume (getter : Nat)
  deriving DecidableEq

/-- The item goes to the first waiter, if there is one. -/
def put (tasks : QueueTasks T) (item : T) : QueueTasks T :=
  match tasks.queue.put item with
  | (.ok (), queue) =>
      { tasks with
        queue := queue
        accepted := tasks.accepted ++ [item]
        handed := tasks.handed ++ (tasks.queue.waiters.head?.map fun waiter => (item, some waiter)).toList }
  | (.error _, queue) => { tasks with queue := queue }

def get (tasks : QueueTasks T) : QueueTasks T :=
  match tasks.queue.get with
  | (.ok (.inl item), queue) =>
      { tasks with queue := queue, handed := tasks.handed ++ [(item, none)] }
  | (.ok (.inr _), queue) =>
      { tasks with queue := queue, getters := tasks.getters ++ [⟨false, none⟩] }
  | (.error _, queue) => { tasks with queue := queue }

def getNowait (tasks : QueueTasks T) : QueueTasks T :=
  match tasks.queue.getNowait with
  | (.ok item, queue) => { tasks with queue := queue, handed := tasks.handed ++ [(item, none)] }
  | (.error _, queue) => { tasks with queue := queue }

/-- A set event lets the task go on at once. -/
def untilItemReady (tasks : QueueTasks T) : QueueTasks T :=
  if tasks.queue.readyEvent.value then tasks
  else
    { tasks with
      queue := { tasks.queue with
        readyEvent := { tasks.queue.readyEvent with
          waiting := tasks.queue.readyEvent.waiting ++ [tasks.waits] } }
      waits := tasks.waits + 1 }

/-- A future that is pending is cancelled, and a resolved one stays as it is. -/
def cancelFuture (queue : FinishableQueue T) (number : Nat) : FinishableQueue T :=
  match queue.futures[number]? with
  | some .pending => { queue with futures := queue.futures.set number .cancelled }
  | _ => queue

def cancel (tasks : QueueTasks T) (number : Nat) (getter : Getter T) : QueueTasks T :=
  { tasks with
    queue := cancelFuture tasks.queue number
    getters := tasks.getters.set number { getter with cancelRequested := true } }

/-- A request that has come in time or late raises in the task, and its result is dropped. -/
def outcomeOf (getter : Getter T) : GetFuture T → Option (GetOutcome T)
  | .pending => none
  | .cancelled => some .cancelled
  | .result item => some (if getter.cancelRequested then .cancelled else .returned item)
  | .queueEmpty => some (if getter.cancelRequested then .cancelled else .queueEmpty)

def step (tasks : QueueTasks T) : Label T → Option (QueueTasks T)
  | .put item => some (tasks.put item)
  | .get => some tasks.get
  | .getNowait => some tasks.getNowait
  | .finish => some { tasks with queue := tasks.queue.finish.2 }
  | .untilItemReady => some tasks.untilItemReady
  | .cancel number =>
      match tasks.getters[number]? with
      | some ⟨asked, none⟩ => some (tasks.cancel number ⟨asked, none⟩)
      | _ => none
  | .resume number =>
      match tasks.getters[number]?, tasks.queue.futures[number]? with
      | some ⟨asked, none⟩, some future =>
          (outcomeOf ⟨asked, none⟩ future).map fun outcome =>
            { tasks with getters := tasks.getters.set number ⟨asked, some outcome⟩ }
      | _, _ => none

def system (T : Type) : Transition.System (QueueTasks T) (Label T) :=
  ⟨(· = initial), step⟩

end QueueTasks

end ClamavDbscan
