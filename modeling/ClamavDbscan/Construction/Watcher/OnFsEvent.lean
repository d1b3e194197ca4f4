import ClamavDbscan.Construction.Fanotify.Layout
import ClamavDbscan.Construction.Watcher.EventLoop
import ClamavDbscan.Library.Iteration

/-
This file models the event parser of the C watcher.
-/

namespace ClamavDbscan.Watcher

open Fanotify

/-- A read outside of the memory and a failed assertion end the process. -/
inductive Failure where
  | fault
  | assertion
  deriving DecidableEq, Repr

/-- The constructors follow `operation_type_t`. -/
inductive OperationType where
  | closeForWrite
  | remove
  | moveFrom
  | moveTo
  | unknown
  deriving DecidableEq, Repr

def operationTypeToString : OperationType → String
  | .closeForWrite => "close_for_write"
  | .remove => "remove"
  | .moveFrom => "move_from"
  | .moveTo => "move_to"
  | .unknown => "unknown"

/-- A later test overrides an earlier one. -/
def operationOfMask (mask : Nat) : OperationType :=
  let op := OperationType.unknown
  let op := if mask &&& fanCloseWrite ≠ 0 then .closeForWrite else op
  let op := if mask &&& fanMovedTo ≠ 0 then .moveTo else op
  let op := if mask &&& fanDelete ≠ 0 then .remove else op
  if mask &&& fanMovedFrom ≠ 0 then .moveFrom else op

/-- The object of one event has these two members. -/
structure JsonEvent where
  path : Bytes
  operation : String
  deriving DecidableEq, Repr

/-- An event has no path, is skipped, or goes into the document. -/
inductive Processed where
  | unresolved
  | skipped (filepath : Bytes)
  | reported (event : JsonEvent)
  deriving DecidableEq, Repr

/-- A call opens a directory by its handle, and the link of its descriptor is read. -/
structure Kernel where
  openByHandleAt : (call : Nat) → (handleType : Nat) → (handle : Bytes) → Option Nat
  safeReadlink : (call : Nat) → (fd : Nat) → Option Bytes

/-- The text `???` stands for a link that cannot be read. -/
def unreadableLink : Bytes := [0x3f, 0x3f, 0x3f]

/-- The string ends before its first zero byte. -/
def cString : Bytes → Option Bytes
  | [] => none
  | byte :: rest => if byte = 0 then some [] else (cString rest).map (byte :: ·)

/-- The path of a directory record is unknown if its handle cannot be opened. -/
def dfidNamePath (kernel : Kernel) (memory : Bytes) (calls fileHandle : Nat) :
    Except Failure (Option Bytes) :=
  match Bytes.readNat memory fileHandle 4 with
  | none => .error .fault
  | some handleBytes =>
      match Bytes.readNat memory (fileHandle + 4) 4,
        Bytes.read memory (fileHandle + fileHandleLen) handleBytes with
      | some handleType, some handle =>
          match kernel.openByHandleAt calls handleType handle with
          | none => .ok none
          | some fd =>
              match cString (memory.drop (fileHandle + fileHandleLen + handleBytes)) with
              | none => .error .fault
              | some name =>
                  let path := (kernel.safeReadlink calls fd).getD unreadableLink
                  .ok (some (path ++ slash :: name))
      | _, _ => .error .fault

/-- The program compares paths with its canonical root and a slash behind it. -/
def comparePathOf (canonicalPath : Bytes) : Bytes :=
  if 1 < canonicalPath.length then canonicalPath ++ [slash] else canonicalPath

/-- The loop over the events is at one event with the rest of the buffer. -/
structure Outer where
  metadataItor : Nat
  buflen : Int
  processed : List Processed
  calls : Nat
  deriving DecidableEq

/-- The parser is at the test of the loop over events or of the loop over records. -/
inductive Config where
  | event (outer : Outer)
  | info (outer : Outer) (metadata : Metadata) (infoFd : Nat) (fullPath : Option Bytes)
  deriving DecidableEq

/-- A wrong version drops the events before it. -/
inductive Handled where
  | wrongVersion
  | finished (processed : List Processed)
  deriving DecidableEq, Repr

abbrev Outcome := Except Failure Handled

def fanEventOk (metadata : Metadata) (buflen : Int) : Bool :=
  (eventMetadataLen : Int) ≤ buflen && eventMetadataLen ≤ metadata.eventLen &&
    (metadata.eventLen : Int) ≤ buflen

/-- The comparison is `strncmp` with the length of the compare path. -/
def processPath (comparePath : Bytes) (mask : Nat) : Option Bytes → Processed
  | none => .unresolved
  | some filepath =>
      if comparePath.isPrefixOf filepath then
        .reported ⟨filepath, operationTypeToString (operationOfMask mask)⟩
      else .skipped filepath

/-- After its records an event is processed, and the loop goes on behind it. -/
def finishEvent (comparePath : Bytes) (outer : Outer) (metadata : Metadata)
    (fullPath : Option Bytes) : Config :=
  .event { outer with
    metadataItor := outer.metadataItor + metadata.eventLen
    buflen := outer.buflen - metadata.eventLen
    processed := outer.processed ++ [processPath comparePath metadata.mask fullPath] }

/-- The header of a record gives the distance to the next one. -/
def nextInfo (memory : Bytes) (outer : Outer) (metadata : Metadata) (infoFd : Nat)
    (fullPath : Option Bytes) : Iteration.Turn Config Outcome :=
  match Bytes.readNat memory (infoFd + 2) 2 with
  | none => .stop (.error .fault)
  | some length => .next (.info outer metadata (infoFd + length) fullPath)

/-- One turn copies the metadata of an event, reads one record or ends an event. -/
def turn (kernel : Kernel) (comparePath memory : Bytes) :
    Config → Iteration.Turn Config Outcome
  | .event outer =>
      match readMetadata memory outer.metadataItor with
      | none => .stop (.error .fault)
      | some metadata =>
          if fanEventOk metadata outer.buflen then
            if metadata.vers ≠ metadataVersion then .stop (.ok .wrongVersion)
            else if metadata.fd ≠ fanNofd then .stop (.error .assertion)
            else .next (.info outer metadata (outer.metadataItor + eventMetadataLen) none)
          else .stop (.ok (.finished outer.processed))
  | .info outer metadata infoFd fullPath =>
      if infoFd < outer.metadataItor + metadata.eventLen then
        match Bytes.readNat memory infoFd 1 with
        | none => .stop (.error .fault)
        | some infoType =>
            if infoType = infoTypeDfidName then
              match dfidNamePath kernel memory outer.calls (infoFd + infoFidLen) with
              | .error failure => .stop (.error failure)
              | .ok none =>
                  .next (finishEvent comparePath { outer with calls := outer.calls + 1 } metadata none)
              | .ok (some path) =>
                  nextInfo memory { outer with calls := outer.calls + 1 } metadata infoFd (some path)
            else nextInfo memory outer metadata infoFd fullPath
      else .next (finishEvent comparePath outer metadata fullPath)

def bufferSize : Nat := 256

/-- The buffer lies on the stack with the frames of the callers behind it. -/
structure Stack where
  bytes : Bytes
  behind : bufferSize + eventMetadataLen ≤ bytes.length

/-- A failed read leaves the buffer as it is. -/
def fill (stack : Stack) : Option Bytes → Bytes
  | none => stack.bytes
  | some data => data ++ stack.bytes.drop data.length

def buflen : Option Bytes → Int
  | none => -1
  | some data => data.length

/-- One call of `on_fs_event` on the result of `read` ends with this outcome. -/
def OnFsEvent (kernel : Kernel) (comparePath : Bytes) (stack : Stack) (data : Option Bytes)
    (outcome : Outcome) : Prop :=
  Iteration.Gives (turn kernel comparePath (fill stack data)) (.event ⟨0, buflen data, [], 0⟩) outcome

/-- A document is queued if at least one event goes into it. -/
def Handled.batch : Handled → LoopState.FsBatch (List JsonEvent)
  | .wrongVersion => .wrongVersion
  | .finished processed =>
      let events := processed.filterMap fun
        | .reported event => some event
        | _ => none
      if events.isEmpty then .nothing else .document events

end ClamavDbscan.Watcher
