import ClamavDbscan.Construction.Fanotify.KernelEvent
import ClamavDbscan.Construction.Main.Program
import ClamavDbscan.Construction.Watch.Message
import ClamavDbscan.Construction.Watcher.Print

/-
This file models the C watcher and the scanner together, with the event queue of the kernel and the socket
between them.
-/

namespace ClamavDbscan

open Fanotify Watcher

/-- The active handle of a client sends the message of its buffer. -/
def Watcher.LoopState.sending {δ : Type} (loop : LoopState δ) (fd : Int) : Option δ :=
  (loop.handles.find? fun handle => handle.active && handle.fd == fd).bind fun handle =>
    (loop.buffers[handle.buffer]?).map MessageBuffer.message

/-- The scanner's end of its connection holds the messages that have not been read. The descriptor is
that of the watcher's end, which can be closed. -/
structure ScannerSocket where
  fd : Int
  messages : List Bytes
  closed : Bool
  deriving DecidableEq

namespace ScannerSocket

/-- A call of `recv` takes one message, and it drops what does not fit. -/
def recv (socket : ScannerSocket) (count : Nat) : Bytes × ScannerSocket :=
  match socket.messages with
  | [] => ([], socket)
  | message :: others => (message.take count, { socket with messages := others })

/-- The reader is called when the socket is readable. The request `SIOCINQ` counts the bytes of all
messages. -/
def readUnixDomainSocket (socket : ScannerSocket) : Option (Bytes × ScannerSocket) :=
  if socket.messages = [] ∧ socket.closed = false then none
  else some (socket.recv socket.messages.flatten.length)

/-- A client that is writable gets its message unless the send fails. The kernel closes the watcher's
descriptors when its loop has ended. -/
def afterCallback (loop after : LoopState (List JsonEvent)) (label : LoopState.Label (List JsonEvent))
    (socket : ScannerSocket) : ScannerSocket :=
  let called :=
    match label with
    | .writeable fd sent =>
        if fd = socket.fd ∧ socket.closed = false then
          if sent then
            { socket with messages := socket.messages ++ ((loop.sending fd).map message).toList }
          else { socket with closed := true }
        else socket
    | _ => socket
  if after.control = .running then called else { called with closed := true }

end ScannerSocket

/-- The process of the watcher has failed in its event parser, or it has returned from `main`. -/
inductive WatcherEnd where
  | crashed (failure : Failure)
  | exited
  deriving DecidableEq

/-- The scanner's task has no socket until it is connected, and an exception ends it. -/
structure Deployment (κ : Type) where
  kernelQueue : List KernelEvent
  watcher : LoopState (List JsonEvent)
  ended : Option WatcherEnd
  socket : Option ScannerSocket
  raised : Option MessageError
  program : Program κ

namespace Deployment

variable {κ : Type}

inductive Label (κ : Type) where
  -- A process changes a file of the watched file system.
  | fileChanged (event : KernelEvent)
  | fsEvent (kernel : Kernel) (stack : Stack) (turns : Nat)
  | callback (label : LoopState.Label (List JsonEvent))
  | exit
  | connect (fd : Int)
  | read
  | scanner (label : Program.Label κ)

/-- The parser runs on what one read of the kernel's queue returns. -/
def parse (kernel : Kernel) (comparePath : Bytes) (stack : Stack) (turns : Nat)
    (kernelQueue : List KernelEvent) : Option Watcher.Outcome :=
  let data := (readEvents bufferSize kernelQueue).1
  Iteration.iterate (turn kernel comparePath (fill stack data)) turns (.event ⟨0, buflen data, [], 0⟩)

/-- These steps belong to the reader of the kernel's queue, or to the connection of the scanner. -/
def isFsEvent : LoopState.Label (List JsonEvent) → Bool
  | .fsEvent _ => true
  | _ => false

def isReceive : Program.Label κ → Bool
  | .watch (.receive _) => true
  | _ => false

def hangUp (state : Deployment κ) (why : WatcherEnd) : Deployment κ :=
  { state with
    ended := some why
    socket := state.socket.map fun socket => { socket with closed := true } }

/-- The task of the watcher handles a message, and an exception ends it afterwards. The empty message
is the end of the connection. -/
def handleData (config : ProgramConfig) (clamd : Clamd κ) (state : Deployment κ) (data : Bytes)
    (socket : ScannerSocket) : Option (Deployment κ) :=
  if data = [] then some { state with socket := none }
  else
    (Program.step config clamd state.program (.watch (.receive (readMessage data).1))).map
      fun program =>
        { state with socket := some socket, raised := (readMessage data).2, program := program }

def step (config : ProgramConfig) (clamd : Clamd κ) (comparePath : Bytes) (state : Deployment κ) :
    Label κ → Option (Deployment κ)
  | .fileChanged event => some { state with kernelQueue := state.kernelQueue ++ [event] }
  | .fsEvent kernel stack turns =>
      if state.ended = none ∧ state.kernelQueue ≠ [] then
        let left := { state with kernelQueue := (readEvents bufferSize state.kernelQueue).2 }
        match parse kernel comparePath stack turns state.kernelQueue with
        | none => none
        | some (.error failure) => some (left.hangUp (.crashed failure))
        | some (.ok handled) =>
            (LoopState.step state.watcher (.fsEvent handled.batch)).map fun watcher =>
              { left with watcher := watcher }
      else none
  | .callback label =>
      if state.ended = none ∧ isFsEvent label = false then
        (LoopState.step state.watcher label).map fun watcher =>
          { state with
            watcher := watcher
            socket := state.socket.map (ScannerSocket.afterCallback state.watcher watcher label) }
      else none
  | .exit =>
      if state.ended = none ∧ (state.watcher.exitCode.isSome ∨ state.watcher.control = .interrupted) then
        some (state.hangUp .exited)
      else none
  | .connect fd =>
      if state.ended = none ∧ state.socket = none ∧ state.raised = none ∧ config.watch = true ∧
          state.program.session.watch.inbox = [] ∧ state.program.session.watch.raised = none then
        (LoopState.step state.watcher (.connection (some fd))).map fun watcher =>
          { state with watcher := watcher, socket := some ⟨fd, [], false⟩ }
      else none
  | .read =>
      if state.raised = none ∧ state.program.session.watch.inbox = [] ∧
          state.program.session.watch.raised = none then
        (state.socket.bind ScannerSocket.readUnixDomainSocket).bind fun (data, socket) =>
          state.handleData config clamd data socket
      else none
  | .scanner label =>
      if isReceive label then none
      else
        (Program.step config clamd state.program label).map fun program =>
          { state with program := program }

def start (config : ProgramConfig) (files : Files) (state : Deployment κ) : Prop :=
  state.kernelQueue = [] ∧ state.watcher = .initial ∧ state.ended = none ∧ state.socket = none ∧
    state.raised = none ∧ Program.start config files state.program

def system (config : ProgramConfig) (clamd : Clamd κ) (files : Files) (comparePath : Bytes) :
    Transition.System (Deployment κ) (Label κ) :=
  ⟨start config files, step config clamd comparePath⟩

end Deployment

end ClamavDbscan
