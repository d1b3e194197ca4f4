import ClamavDbscan.Library.Transition

/-
This file models the client table and the callbacks of the C watcher's event loop.
-/

namespace ClamavDbscan.Watcher

/-- The value `-1` marks a free slot, and the capacity is the length of the table. -/
structure ClientTable where
  clients : List Int
  clientsCount : Nat
  deriving DecidableEq, Repr

namespace ClientTable

def initial : ClientTable := ⟨[], 0⟩

def occupied (slots : List Int) : List Int := slots.filter (· ≠ -1)

/-- The stored descriptors are the slots that are not free. -/
def stored (table : ClientTable) : List Int := occupied table.clients

/-- An empty table gets four slots, and a full one doubles. -/
def reserve (table : ClientTable) : ClientTable :=
  if table.clients.length = 0 then { table with clients := List.replicate 4 (-1) }
  else if table.clientsCount = table.clients.length then
    { table with clients := table.clients ++ List.replicate table.clients.length (-1) }
  else table

/-- The first slot with the old value gets the new one. -/
def replaceFirst (old new : Int) : List Int → Option (List Int)
  | [] => none
  | slot :: others =>
      if slot = old then some (new :: others) else (replaceFirst old new others).map (slot :: ·)

/-- Without a free slot the table stays as it is. -/
def addClient (table : ClientTable) (client : Int) : ClientTable :=
  let reserved := table.reserve
  match replaceFirst (-1) client reserved.clients with
  | some clients => ⟨clients, reserved.clientsCount + 1⟩
  | none => reserved

def removeClient (table : ClientTable) (client : Int) : ClientTable :=
  match replaceFirst client (-1) table.clients with
  | some clients => ⟨clients, table.clientsCount - 1⟩
  | none => table

end ClientTable

variable {δ : Type}

/-- A message buffer is freed when its count reaches zero. -/
structure MessageBuffer (δ : Type) where
  message : δ
  refcount : Nat
  deriving DecidableEq

/-- A write handle watches one descriptor for one message. -/
structure WriteHandle where
  fd : Int
  buffer : Nat
  active : Bool
  closing : Bool
  deriving DecidableEq

inductive Control where
  | running
  | aborted
  -- The traversal of the table has read behind its last slot.
  | overrun
  | interrupted
  deriving DecidableEq

/-- Buffers and write handles keep their creation order. -/
structure LoopState (δ : Type) where
  jsonQueue : List δ
  idleActive : Bool
  table : ClientTable
  buffers : List (MessageBuffer δ)
  handles : List WriteHandle
  exitCode : Option Nat
  control : Control
  deriving DecidableEq

namespace LoopState

def initial : LoopState δ := ⟨[], false, .initial, [], [], none, .running⟩

/-- A call of `uv_stop` ends the loop before its next iteration. -/
def terminate (loop : LoopState δ) (reason : Nat) : LoopState δ :=
  { loop with exitCode := some reason }

/-- A buffer loses one reference. -/
def unref (buffers : List (MessageBuffer δ)) (index : Nat) : List (MessageBuffer δ) :=
  buffers.modify index fun buffer => { buffer with refcount := buffer.refcount - 1 }

def ref (buffers : List (MessageBuffer δ)) (index : Nat) : List (MessageBuffer δ) :=
  buffers.modify index fun buffer => { buffer with refcount := buffer.refcount + 1 }

/-- `uv_poll_init` fails for a descriptor that an active handle watches. -/
def watched (loop : LoopState δ) (fd : Int) : Bool :=
  loop.handles.any fun handle => handle.active && handle.fd == fd

/-- The traversal prepares a write handle for each of `clientsCount` clients. -/
def prepare (buffer : Nat) : (count : Nat) → (slots : List Int) → LoopState δ → LoopState δ
  | 0, _, loop => loop
  | _ + 1, [], loop => { loop with control := .overrun }
  | count + 1, slot :: others, loop =>
      if slot = -1 then prepare buffer (count + 1) others loop
      else if loop.watched slot then { loop with control := .aborted }
      else
        prepare buffer count others { loop with
          handles := loop.handles ++ [⟨slot, buffer, true, false⟩]
          buffers := ref loop.buffers buffer }

/-- The idle callback broadcasts the first document of the queue. -/
def sendJsons (loop : LoopState δ) : LoopState δ :=
  match loop.jsonQueue with
  | [] => loop
  | json :: others =>
      let index := loop.buffers.length
      let prepared := prepare index loop.table.clientsCount loop.table.clients
        { loop with jsonQueue := others, buffers := loop.buffers ++ [⟨json, 1⟩] }
      if prepared.control = .running then
        { prepared with
          buffers := unref prepared.buffers index
          idleActive := if prepared.jsonQueue.isEmpty then false else prepared.idleActive }
      else prepared

/-- The handle of a writable client sends its message once and is closed. -/
def onClientWriteable (loop : LoopState δ) (number : Nat) (handle : WriteHandle) (sent : Bool) :
    LoopState δ :=
  { loop with
    table := if sent then loop.table else loop.table.removeClient handle.fd
    buffers := unref loop.buffers handle.buffer
    handles := loop.handles.set number { handle with active := false, closing := true } }

/-- A batch of events is rejected, gives no event to report, or gives one document. -/
inductive FsBatch (δ : Type) where
  | wrongVersion
  | nothing
  | document (json : δ)
  deriving DecidableEq

/-- The end of `on_fs_event` queues the document and starts the idle handle. -/
def onFsEvent (loop : LoopState δ) : FsBatch δ → LoopState δ
  | .wrongVersion => loop.terminate 1
  | .nothing => loop
  | .document json => { loop with jsonQueue := loop.jsonQueue ++ [json], idleActive := true }

/-- Every handle that is not closing is closed, and its message loses a reference. -/
def openHandles (loop : LoopState δ) : LoopState δ :=
  { loop with
    idleActive := false
    buffers := (loop.handles.filter fun handle => !handle.closing).foldl
      (fun buffers handle => unref buffers handle.buffer) loop.buffers
    handles := loop.handles.map fun handle => { handle with active := false, closing := true }
    control := .interrupted }

/-- The callbacks come in any order; a client is writable at any time or never. -/
inductive Label (δ : Type) where
  | fsEvent (batch : FsBatch δ)
  | connection (accepted : Option Int)
  | idle
  | writeable (fd : Int) (sent : Bool)
  | sigint
  deriving DecidableEq

/-- The kernel accepts a client on a descriptor that is not open, so no slot holds it. -/
def step (loop : LoopState δ) (label : Label δ) : Option (LoopState δ) :=
  if loop.control = .running then
    match label with
    | .fsEvent batch => some (loop.onFsEvent batch)
    | .connection none => some (loop.terminate 1)
    | .connection (some fd) =>
        if 0 ≤ fd ∧ fd ∉ loop.table.clients then
          some { loop with table := loop.table.addClient fd }
        else none
    | .idle =>
        if loop.idleActive = true ∧ loop.exitCode = none then some loop.sendJsons else none
    | .writeable fd sent =>
        match loop.handles.findIdx? fun handle => handle.active && handle.fd == fd with
        | none => none
        | some number =>
            (loop.handles[number]?).map fun handle => loop.onClientWriteable number handle sent
    | .sigint => some loop.openHandles
  else none

def system : Transition.System (LoopState δ) (Label δ) := ⟨(· = initial), step⟩

end LoopState

end ClamavDbscan.Watcher
