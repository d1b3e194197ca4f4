import ClamavDbscan.Library.Transition
import Mathlib.Logic.Function.Basic

/-
This file models how watcher processes share the path of the Unix domain socket.
-/

namespace ClamavDbscan

/-- Both watchers use the same path. -/
inductive WatcherProgram where
  | c
  | go
  deriving DecidableEq, Repr

/-- A process is between two of its system calls. -/
inductive SocketPhase where
  -- The first `bind` comes next.
  | created
  -- The path was in use, and `connect` comes next.
  | inUse
  -- The socket at the path has refused the connection, and `unlink` comes next.
  | refused (probed : Option Nat)
  -- The Go watcher looks at the path again.
  | removed
  -- The second `bind` comes next.
  | unlinked
  -- The process owns a socket at the path, and `listen` comes next.
  | bound
  -- The call of `chmod` comes next.
  | listening
  -- The `chmod` of the Go watcher has failed, and the `unlink` of `socket.Close()` comes next.
  | closing
  -- The descriptor has been returned.
  | serving
  -- The final `unlink` is done, and the descriptor is still open.
  | leaving
  | ended
  deriving DecidableEq, Repr

namespace SocketPhase

/-- A socket accepts connections after `listen` until its process has ended. -/
def listens : SocketPhase → Bool
  | listening | closing | serving | leaving => true
  | _ => false

/-- A descriptor that has been returned is open until the end of the process. -/
def hasDescriptor : SocketPhase → Bool
  | serving | leaving => true
  | _ => false

end SocketPhase

/-- The path names the socket of a process, and the processes are numbered. -/
structure SocketHost where
  path : Option Nat
  phase : Nat → SocketPhase

namespace SocketHost

def initial : SocketHost := ⟨none, fun _ => .created⟩

def setPhase (host : SocketHost) (process : Nat) (phase : SocketPhase) : SocketHost :=
  { host with phase := Function.update host.phase process phase }

/-- The call of `bind` fails exactly if the path exists. -/
def bind (host : SocketHost) (process : Nat) (busy : SocketPhase) : SocketHost :=
  match host.path with
  | none => { host with path := some process }.setPhase process .bound
  | some _ => host.setPhase process busy

/-- The call of `connect` is refused if nothing listens at the path. -/
def connect (host : SocketHost) (process : Nat) : SocketHost :=
  match host.path with
  | none => host.setPhase process (.refused none)
  | some owner =>
      if (host.phase owner).listens then host.setPhase process .ended
      else host.setPhase process (.refused (some owner))

/-- The call of `unlink` fails if the path is gone. -/
def unlink (host : SocketHost) (process : Nat) (next : SocketPhase) : SocketHost :=
  match host.path with
  | none => host.setPhase process .ended
  | some _ => { host with path := none }.setPhase process next

/-- These are the next system calls of a process. -/
def nextCall (afterUnlink afterChmod : SocketPhase) (host : SocketHost) (process : Nat) : Option SocketHost :=
  match host.phase process with
  | .created => some (host.bind process .inUse)
  | .inUse => some (host.connect process)
  | .refused _ => some (host.unlink process afterUnlink)
  | .removed => some (host.setPhase process (if host.path = none then .unlinked else .ended))
  | .unlinked => some (host.bind process .ended)
  | .bound => some (host.setPhase process .listening)
  | .listening => some (host.setPhase process (if host.path = none then afterChmod else .serving))
  | .closing => some ({ host with path := none }.setPhase process .ended)
  | .serving | .leaving | .ended => none

/-- Every failure but that of the first `bind` ends the process. -/
def bindToUnixDomainSocket : SocketHost → Nat → Option SocketHost := nextCall .unlinked .ended

/-- The Go watcher checks that the path is gone before it binds again, and it removes the path if `chmod`
fails. -/
def newUnixDomainServer : SocketHost → Nat → Option SocketHost := nextCall .removed .closing

/-- The processes take their steps in any order, and each of them can die at any time. -/
inductive Label where
  | call (process : Nat)
  -- The call of `chmod` fails although the path exists.
  | deny (process : Nat)
  -- A serving process ends its loop and removes the path.
  | exit (process : Nat)
  | quit (process : Nat)
  | die (process : Nat)
  deriving DecidableEq, Repr

def step (program : Nat → WatcherProgram) (host : SocketHost) : Label → Option SocketHost
  | .call process =>
      match program process with
      | .c => host.bindToUnixDomainSocket process
      | .go => host.newUnixDomainServer process
  | .deny process =>
      if host.phase process = .listening then
        some (host.setPhase process (match program process with
          | .c => .ended
          | .go => .closing))
      else none
  | .exit process =>
      if host.phase process = .serving then
        some ({ host with path := none }.setPhase process .leaving)
      else none
  | .quit process =>
      if host.phase process = .leaving then some (host.setPhase process .ended) else none
  | .die process =>
      if host.phase process ≠ .ended then some (host.setPhase process .ended) else none

def system (program : Nat → WatcherProgram) : Transition.System SocketHost Label :=
  ⟨(· = initial), step program⟩

end SocketHost

end ClamavDbscan
