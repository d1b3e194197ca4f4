import Mathlib.Data.List.Basic

/-
This file models `FinishableQueue` and the event and futures that it uses.
-/

namespace ClamavDbscan

/-- An event keeps the waiters that it has not woken and those that it has. -/
structure ReadyEvent where
  value : Bool
  waiting : List Nat
  resolved : List Nat
  deriving DecidableEq, Repr

namespace ReadyEvent

def initial : ReadyEvent := ⟨false, [], []⟩

/-- Setting the event wakes every waiter. -/
def set (event : ReadyEvent) : ReadyEvent :=
  if event.value then event else ⟨true, [], event.resolved ++ event.waiting⟩

/-- Clearing the event takes no wake-up back. -/
def clear (event : ReadyEvent) : ReadyEvent := { event with value := false }

end ReadyEvent

/-- A future of `get` is resolved at most once. -/
inductive GetFuture (T : Type) where
  | pending
  | cancelled
  | result (item : T)
  | queueEmpty
  deriving DecidableEq

inductive QueueError where
  | queueFull
  | queueEmpty
  | invalidState
  | assertionError
  deriving DecidableEq, Repr

/-- The waiters are indices of futures, and the futures are kept in creation order. -/
structure FinishableQueue (T : Type) where
  q : List T
  finishedFlag : Bool
  waiters : List Nat
  futures : List (GetFuture T)
  readyEvent : ReadyEvent
  deriving DecidableEq

namespace FinishableQueue

variable {T : Type}

def initial : FinishableQueue T := ⟨[], false, [], [], .initial⟩

def len (queue : FinishableQueue T) : Nat := queue.q.length

def markReady (queue : FinishableQueue T) : FinishableQueue T :=
  { queue with readyEvent := queue.readyEvent.set }

/-- The first waiter takes the item, and only without waiters is the item queued. -/
def put (queue : FinishableQueue T) (item : T) : Except QueueError Unit × FinishableQueue T :=
  if queue.finishedFlag then (.error .queueFull, queue)
  else
    match queue.waiters with
    | waiter :: others =>
        match queue.futures[waiter]? with
        | some .pending =>
            (.ok (), { queue with
              waiters := others, futures := queue.futures.set waiter (.result item) })
        | _ => (.error .invalidState, { queue with waiters := others })
    | [] => (.ok (), { queue with q := queue.q ++ [item] }.markReady)

/-- A call of `get` returns an item, raises, or suspends on a new future. -/
def get (queue : FinishableQueue T) : Except QueueError (T ⊕ Nat) × FinishableQueue T :=
  match queue.q with
  | item :: others => (.ok (.inl item), { queue with q := others })
  | [] =>
      if queue.finishedFlag then (.error .queueEmpty, queue)
      else
        (.ok (.inr queue.futures.length), { queue with
          waiters := queue.waiters ++ [queue.futures.length]
          futures := queue.futures ++ [.pending] })

def getNowait (queue : FinishableQueue T) : Except QueueError T × FinishableQueue T :=
  match queue.q with
  | item :: others =>
      (.ok item, { queue with
        q := others
        readyEvent := if others.isEmpty then queue.readyEvent.clear else queue.readyEvent })
  | [] => (.error .queueEmpty, queue)

/-- Failing the waiters stops at the first future that is already resolved. -/
def failWaiters : List Nat → List (GetFuture T) → Except QueueError Unit × List (GetFuture T)
  | [], futures => (.ok (), futures)
  | waiter :: others, futures =>
      match futures[waiter]? with
      | some .pending => failWaiters others (futures.set waiter .queueEmpty)
      | _ => (.error .invalidState, futures)

def finish (queue : FinishableQueue T) : Except QueueError Unit × FinishableQueue T :=
  if queue.finishedFlag then (.ok (), queue)
  else
    let marked := { queue with finishedFlag := true }
    if queue.waiters.isEmpty then (.ok (), marked.markReady)
    else if queue.q.isEmpty then
      match failWaiters queue.waiters queue.futures with
      | (.ok (), futures) => (.ok (), { marked with futures := futures }.markReady)
      | (.error raised, futures) => (.error raised, { marked with futures := futures })
    else (.error .assertionError, marked)

def finished (queue : FinishableQueue T) : Bool := queue.q.isEmpty && queue.finishedFlag

end FinishableQueue

end ClamavDbscan
