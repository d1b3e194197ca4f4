import ClamavDbscan.Construction.Watcher.EventLoop
import ClamavDbscan.Library.RefCount

/-
This file models what the callbacks of the C watcher and the end of `main` do with message buffers and
client descriptors.
-/

namespace ClamavDbscan.Watcher

open RefCount LoopState

variable {δ : Type}

/-- A descriptor is closed by one of these functions. -/
inductive Closer where
  | onClientWriteable
  | main
  deriving DecidableEq

/-- A call of `accept` opens a connection. -/
structure Connection where
  fd : Int
  closedBy : Option Closer
  deriving DecidableEq

/-- The fault is set when a descriptor is closed that is not open. -/
structure Descriptors where
  connections : List Connection
  fault : Bool
  deriving DecidableEq

namespace Descriptors

def initial : Descriptors := ⟨[], false⟩

/-- The connections are in the order in which they were accepted. -/
def accept (descriptors : Descriptors) (fd : Int) : Descriptors :=
  { descriptors with connections := descriptors.connections ++ [⟨fd, none⟩] }

/-- A descriptor names the open connection with its number. -/
def closeFirst (fd : Int) (closer : Closer) : List Connection → Option (List Connection)
  | [] => none
  | connection :: others =>
      if connection.fd = fd ∧ connection.closedBy = none then some (⟨fd, some closer⟩ :: others)
      else (closeFirst fd closer others).map (connection :: ·)

def close (descriptors : Descriptors) (closer : Closer) (fd : Int) : Descriptors :=
  match closeFirst fd closer descriptors.connections with
  | some connections => { descriptors with connections := connections }
  | none => { descriptors with fault := true }

end Descriptors

namespace LoopState

/-- Each handle that the traversal prepares takes a reference. -/
def prepareCalls (buffer : Nat) : (count : Nat) → (slots : List Int) → LoopState δ → List MemoryCall
  | 0, _, _ => []
  | _ + 1, [], _ => []
  | count + 1, slot :: others, loop =>
      if slot = -1 then prepareCalls buffer (count + 1) others loop
      else if loop.watched slot then []
      else
        .retain buffer :: prepareCalls buffer count others { loop with
          handles := loop.handles ++ [⟨slot, buffer, true, false⟩]
          buffers := ref loop.buffers buffer }

/-- The broadcast makes a buffer for its document, and at the end it drops its own reference. -/
def sendJsonsCalls (loop : LoopState δ) : List MemoryCall :=
  match loop.jsonQueue with
  | [] => []
  | json :: others =>
      .allocate :: prepareCalls loop.buffers.length loop.table.clientsCount loop.table.clients
          { loop with jsonQueue := others, buffers := loop.buffers ++ [⟨json, 1⟩] } ++
        if loop.sendJsons.control = .running then [.release loop.buffers.length] else []

end LoopState

/-- The process has ended when `main` has closed its clients. -/
structure Process (δ : Type) where
  loop : LoopState δ
  memory : Memory
  descriptors : Descriptors
  ended : Bool
  deriving DecidableEq

namespace Process

def initial : Process δ := ⟨.initial, .initial, .initial, false⟩

/-- A message is read by `send`, and a failed send closes the client first. -/
def onClientWriteable (process : Process δ) (handle : WriteHandle) (sent : Bool) : Process δ :=
  { process with
    memory := process.memory.calls [.use handle.buffer, .release handle.buffer]
    descriptors :=
      if sent then process.descriptors else process.descriptors.close .onClientWriteable handle.fd }

/-- Every handle that is not closing drops its reference. -/
def openHandles (process : Process δ) : Process δ :=
  { process with
    memory := process.memory.calls ((process.loop.handles.filter fun handle => !handle.closing).map
      fun handle => .release handle.buffer) }

/-- The callbacks of the loop release and close what they use. -/
def callback (process : Process δ) : Label δ → Process δ
  | .fsEvent _ | .connection none => process
  | .connection (some fd) => { process with descriptors := process.descriptors.accept fd }
  | .idle => { process with memory := process.memory.calls process.loop.sendJsonsCalls }
  | .writeable fd sent =>
      match process.loop.handles.find? fun handle => handle.active && handle.fd == fd with
      | some handle => process.onClientWriteable handle sent
      | none => process
  | .sigint => process.openHandles

/-- After the loop `main` closes the clients that are left in the table. -/
def closeClients (descriptors : Descriptors) (slots : List Int) : Descriptors :=
  slots.foldl (fun descriptors slot => if slot ≠ -1 then descriptors.close .main slot else descriptors)
    descriptors

inductive Act (δ : Type) where
  | callback (label : Label δ)
  | exit
  deriving DecidableEq

def step (process : Process δ) : Act δ → Option (Process δ)
  | .callback label =>
      (process.loop.step label).map fun loop => { process.callback label with loop := loop }
  | .exit =>
      if process.loop.control = .interrupted ∧ process.ended = false then
        some { process with
          descriptors := closeClients process.descriptors process.loop.table.clients
          ended := true }
      else none

def system : Transition.System (Process δ) (Act δ) := ⟨(· = initial), step⟩

end Process

end ClamavDbscan.Watcher
