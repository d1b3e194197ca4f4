import ClamavDbscan.Library.Transition
import Mathlib.Logic.Function.Basic

/-
This file models how the calls of `ClambScanMgr.ensure_clamd` start `clamd`.
-/

namespace ClamavDbscan

/-- A call of `ensure_clamd` is suspended at one of its awaits, or it has ended. -/
inductive EnsurePhase where
  | uncalled
  -- The call waits for the lock.
  | queued
  -- The call waits for `create_subprocess_exec`.
  | spawning
  -- The call sleeps until the socket exists.
  | awaitingSocket
  -- The call waits for `open_unix_connection`.
  | connecting
  -- The call waits for the answer to its `PING`.
  | reading
  -- The call sleeps before the next `PING`.
  | pausing
  | returned
  | raised
  deriving DecidableEq, Repr

namespace EnsurePhase

/-- These awaits lie in the block of the lock. -/
def inside : EnsurePhase → Bool
  | spawning | awaitingSocket | connecting | reading | pausing => true
  | _ => false

end EnsurePhase

/-- The manager has the handle of the process and a lock, and the calls are numbered. The processes
are counted, and it is kept whether a `PONG` has been received. -/
structure EnsureClamd where
  clamd : Option Nat
  holder : Option Nat
  waiters : List Nat
  clamdOutputEnabled : Bool
  phase : Nat → EnsurePhase
  processes : Nat
  socketExists : Bool
  pong : Bool

namespace EnsureClamd

def setPhase (mgr : EnsureClamd) (caller : Nat) (phase : EnsurePhase) : EnsureClamd :=
  { mgr with phase := Function.update mgr.phase caller phase }

/-- The block of the lock ends with a return or with an exception. -/
def release (mgr : EnsureClamd) (caller : Nat) (phase : EnsurePhase) : EnsureClamd :=
  { mgr with holder := none }.setPhase caller phase

/-- The caller has got the lock, checks the handle again and writes the configuration. -/
def enter (mgr : EnsureClamd) (caller : Nat) (configured : Bool) : EnsureClamd :=
  let mgr := { mgr with holder := some caller }
  if mgr.clamd ≠ none then mgr.release caller .returned
  else if configured then mgr.setPhase caller .spawning
  else mgr.release caller .raised

/-- Once the socket exists, the configuration is removed, which can fail. -/
def lookForSocket (mgr : EnsureClamd) (caller : Nat) (unlinked : Bool) : EnsureClamd :=
  if mgr.socketExists then
    if unlinked then mgr.setPhase caller .connecting else mgr.release caller .raised
  else mgr.setPhase caller .awaitingSocket

/-- The numbers name the calls, and the flags are the outcomes of system calls. -/
inductive Label where
  -- The call begins with the check outside of the lock.
  | call (caller : Nat) (configured : Bool)
  -- The first call that waits for the lock gets it.
  | wake (caller : Nat) (configured : Bool)
  | spawned (caller : Nat) (created unlinked : Bool)
  | look (caller : Nat) (unlinked : Bool)
  | connected (caller : Nat) (opened : Bool)
  | answered (caller : Nat) (pong : Bool)
  | resume (caller : Nat)
  -- The socket appears or disappears.
  | socket (present : Bool)
  deriving DecidableEq, Repr

def step (mgr : EnsureClamd) : Label → Option EnsureClamd
  | .call caller configured =>
      if mgr.phase caller ≠ .uncalled then none
      else if mgr.clamd ≠ none then some (mgr.setPhase caller .returned)
      else if mgr.holder = none ∧ mgr.waiters = [] then some (mgr.enter caller configured)
      else some ({ mgr with waiters := mgr.waiters ++ [caller] }.setPhase caller .queued)
  | .wake caller configured =>
      if mgr.holder = none ∧ mgr.waiters.head? = some caller then
        some ({ mgr with waiters := mgr.waiters.tail }.enter caller configured)
      else none
  | .spawned caller created unlinked =>
      if mgr.phase caller ≠ .spawning then none
      else if created then
        some ({ mgr with clamd := some mgr.processes, processes := mgr.processes + 1 }.lookForSocket
          caller unlinked)
      else some (mgr.release caller .raised)
  | .look caller unlinked =>
      if mgr.phase caller = .awaitingSocket then some (mgr.lookForSocket caller unlinked) else none
  | .connected caller opened =>
      if mgr.phase caller = .connecting then
        some (mgr.setPhase caller (if opened then .reading else .pausing))
      else none
  | .answered caller pong =>
      if mgr.phase caller ≠ .reading then none
      else if pong then
        some ({ mgr with pong := true, clamdOutputEnabled := false }.release caller .returned)
      else some (mgr.setPhase caller .pausing)
  | .resume caller =>
      if mgr.phase caller = .pausing then some (mgr.setPhase caller .connecting) else none
  | .socket present => some { mgr with socketExists := present }

/-- A new manager has no process. -/
def Initial (mgr : EnsureClamd) : Prop :=
  mgr.clamd = none ∧ mgr.holder = none ∧ mgr.waiters = [] ∧ mgr.clamdOutputEnabled = true ∧
    (∀ caller, mgr.phase caller = .uncalled) ∧ mgr.processes = 0 ∧ mgr.pong = false

def system : Transition.System EnsureClamd Label := ⟨Initial, step⟩

end EnsureClamd

end ClamavDbscan
