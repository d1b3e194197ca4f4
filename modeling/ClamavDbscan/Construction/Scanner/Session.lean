import ClamavDbscan.Construction.Watch.OnDemandWatcher

/-
This file models overlapping calls of `scan_file` with the watcher and a changing disk.
-/

namespace ClamavDbscan

variable {κ : Type}

/-- A file has a kind and a content. -/
structure Node (κ : Type) where
  mode : FileMode
  content : κ
  deriving DecidableEq

/-- A directory entry names a file with its size and modification time. -/
structure Entry (κ : Type) where
  node : Node κ
  size : Nat
  mtime : ℚ
  deriving DecidableEq

def Entry.stat (entry : Entry κ) : StatResult := ⟨entry.node.mode, entry.size, entry.mtime⟩

/-- `os.lstat` finds an entry or raises. -/
abbrev Disk (κ : Type) := Str → Except PyException (Entry κ)

/-- The reply to `SCAN <path>` depends on the file that clamd reads, if there is one. -/
abbrev Clamd (κ : Type) := Str → Option (Node κ) → Str

/-- These are the places where `scan_file` can be suspended. A call suspends between its two
stats only while clamd starts; otherwise one follows the other at once. -/
inductive CallPhase (κ : Type) where
  | created
  | looked
  | statted (entry : Entry κ)
  | sent (entry : Entry κ)
  | replied (entry : Entry κ) (reply : Str)
  | finished (outcome : Except PyException ClamAVDBFileMetadata)

/-- The first entry and the mark of an outdated call are records for statements. -/
structure Call (κ : Type) where
  path : Str
  cacheOk : Bool
  phase : CallPhase κ
  seen : Option (Entry κ)
  outdated : Bool

namespace Call

/-- A call that has looked at the disk is in flight until it is finished. -/
def inFlight (call : Call κ) : Bool :=
  match call.phase with
  | .created | .finished _ => false
  | _ => true

/-- From its first stat to the reply of clamd the call relies on the file. -/
def relies (call : Call κ) : Bool :=
  match call.phase with
  | .looked | .statted _ | .sent _ => true
  | _ => false

/-- A call goes on until it is suspended again, and only its last step writes the table. -/
def advance (disk : Disk κ) (files : Files) (now : Str) (call : Call κ) :
    Option (Call κ × Files) :=
  match call.phase with
  | .created =>
      match disk call.path with
      | .error raised => some ({ call with phase := .finished (.error raised) }, files)
      | .ok entry =>
          let looked := { call with seen := some entry }
          match ClamAVDB.cachedResult files call.path call.cacheOk entry.stat with
          | .error raised => some ({ looked with phase := .finished (.error raised) }, files)
          | .ok (some cached) => some ({ looked with phase := .finished (.ok cached) }, files)
          | .ok none => some ({ looked with phase := .looked }, files)
  | .looked =>
      match disk call.path with
      | .error raised => some ({ call with phase := .finished (.error raised) }, files)
      | .ok entry =>
          match ClambScanMgr.statForScan call.path none (.ok entry.stat) with
          | .error raised => some ({ call with phase := .finished (.error raised) }, files)
          | .ok _ => some ({ call with phase := .statted entry }, files)
  | .statted entry =>
      match ClambScanMgr.sendScan call.path with
      | .error raised => some ({ call with phase := .finished (.error raised) }, files)
      | .ok _ => some ({ call with phase := .sent entry }, files)
  | .sent _ => none
  | .replied entry reply =>
      match parseReply call.path entry.stat (replyLines reply) now with
      | .error raised => some ({ call with phase := .finished (.error raised) }, files)
      | .ok result =>
          let stored := ClamAVDB.storeResult files call.path result
          some ({ call with phase := .finished stored.1 }, stored.2)
  | .finished _ => none

/-- Between the command and its reply clamd reads the file. -/
def read (clamd : Clamd κ) (disk : Disk κ) (call : Call κ) : Option (Call κ) :=
  match call.phase with
  | .sent entry =>
      let reply := clamd call.path ((disk call.path).toOption.map Entry.node)
      some { call with phase := .replied entry reply }
  | _ => none

end Call

/-- A path is removed from the end of a removal's handling until a later call stores a result. -/
structure Session (κ : Type) where
  watch : OnDemand
  disk : Disk κ
  calls : List (Call κ)
  removed : Str → Bool

namespace Session

inductive Label (κ : Type) where
  | watch (label : OnDemand.Label)
  | change (path : Str) (entry : Except PyException (Entry κ))
  | begin (path : Str) (cacheOk : Bool)
  | advance (number : Nat) (now : Str)
  | read (number : Nat)

/-- This is the path of the removal that the watcher handles in this step without an exception. -/
def handledRemoval (watch : OnDemand) : OnDemand.Label → Option Str
  | .handle =>
      watch.inbox.head?.bind fun event =>
        if event.operation.isRemoval && !startsWith event.path (text "/tmp") &&
            !event.path.any isSurrogate then some event.path
        else none
  | _ => none

/-- The calls of the path that are in flight are outdated from now on. -/
def noteRemoval (session : Session κ) : Option Str → Session κ
  | none => session
  | some path =>
      { session with
        calls := session.calls.map fun call =>
          if call.path = path ∧ call.inFlight = true then { call with outdated := true } else call
        removed := Function.update session.removed path true }

/-- A store by a call that is not outdated ends the time of the removal. -/
def noteStore (removed : Str → Bool) (call after : Call κ) : Str → Bool :=
  match call.phase, after.phase with
  | .replied _ _, .finished (.ok _) =>
      if call.outdated then removed else Function.update removed call.path false
  | _, _ => removed

/-- Calls go on only between messages, while the disk and clamd go on at any time. -/
def step (clamd : Clamd κ) (session : Session κ) : Label κ → Option (Session κ)
  | .watch label =>
      (OnDemand.step session.watch label).map fun after =>
        { session with watch := after }.noteRemoval (handledRemoval session.watch label)
  | .change path entry => some { session with disk := Function.update session.disk path entry }
  | .begin path cacheOk =>
      if session.watch.inbox = [] then
        some { session with calls := session.calls ++ [⟨path, cacheOk, .created, none, false⟩] }
      else none
  | .advance number now =>
      if session.watch.inbox = [] then
        (session.calls[number]?).bind fun call =>
          (call.advance session.disk session.watch.files now).map fun (after, files) =>
            { session with
              watch := { session.watch with files := files }
              calls := session.calls.set number after
              removed := noteStore session.removed call after }
      else none
  | .read number =>
      (session.calls[number]?).bind fun call =>
        (call.read clamd session.disk).map fun after =>
          { session with calls := session.calls.set number after }

/-- A session starts with an empty table and no call. -/
def start (session : Session κ) : Prop :=
  OnDemand.start session.watch ∧ session.watch.files = (fun _ => none) ∧ session.calls = [] ∧
    session.removed = fun _ => false

def system (clamd : Clamd κ) : Transition.System (Session κ) (Label κ) := ⟨start, step clamd⟩

end Session

end ClamavDbscan
