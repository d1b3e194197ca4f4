import ClamavDbscan.Construction.Fanotify.Layout
import ClamavDbscan.Library.Iteration

/-
This file models the event parser of the Go watcher.
-/

namespace ClamavDbscan.FSWatcher

open Fanotify

/-- A conversion to `uintptr` wraps at 64 bits. -/
def asUintptr (number : Int) : Nat := (number % 2 ^ 64).toNat

/-- A conversion to `uint32` wraps at 32 bits. -/
def asUint32 (number : Int) : Nat := (number % 2 ^ 32).toNat

theorem asUintptr_natCast {number : Nat} (fits : number < 2 ^ 64) :
    asUintptr number = number := by
  unfold asUintptr
  omega

theorem asUint32_natCast {number : Nat} (fits : number < 2 ^ 32) :
    asUint32 number = number := by
  unfold asUint32
  omega

structure Event where
  dirpath : Option Bytes
  filename : Bytes
  eventMask : Nat
  deriving DecidableEq, Repr

/-- A read of unmapped memory ends the process, and a panic ends it too. -/
inductive Failure where
  | fault
  | invalidVersion
  | indexOutOfRange
  | noEventsForMask
  | noFilepath
  | negativeBufferSize
  deriving DecidableEq, Repr

/-- `parseEventMask` lists these names in this order. -/
def maskNames : List (Nat × String) :=
  [(0x1, "ACCESS"), (0x2, "MODIFY"), (fanCloseWrite, "CLOSE_WRITE"), (0x10, "CLOSE_NOWRITE"),
    (0x20, "OPEN"), (fanQOverflow, "Q_OVERFLOW"), (0x10000, "OPEN_PERM"),
    (0x20000, "ACCESS_PERM"), (0x40000000, "ONDIR"), (0x8000000, "EVENT_ON_CHILD"),
    (0x18, "CLOSE"), (0x40000, "OPEN_EXEC_PERM"), (0x1000, "OPEN_EXEC"), (0x100, "CREATE"),
    (fanDelete, "DELETE"), (0x400, "DELETE_SELF"), (0xc0, "MOVE"), (fanMovedFrom, "MOVED_FROM"),
    (fanMovedTo, "MOVED_TO"), (0x800, "MOVE_SELF"), (0x4, "ATTRIB")]

/-- A mask without a known bit has no names, which is an error. -/
def parseEventMask (mask : Nat) : Option (List String) :=
  let events := (maskNames.filter fun entry => mask &&& entry.1 != 0).map Prod.snd
  if events.isEmpty then none else some events

/-- The kernel opens a directory by its handle, or it fails with an error number. -/
structure Kernel where
  openByHandleAt : (call : Nat) → (handleType : Nat) → (handle : Bytes) → Except Nat Nat
  readlink : (call : Nat) → (fd : Nat) → Except Nat Bytes

def estale : Nat := 116

def enomem : Nat := 12

/-- These fields of the watcher decide which directories are reported. -/
structure Filter where
  comparePath : Bytes
  comparePathPrefix : Bytes
  filterResults : Bool

/-- A new watcher compares directories with its canonical root. -/
def Filter.ofRoot (watchpath : Bytes) (onlyMatching : Bool) : Filter :=
  ⟨watchpath, watchpath ++ [slash], onlyMatching⟩

/-- The directory is the watched one or lies below it. -/
def Filter.allowPath (filter : Filter) (path : Option Bytes) : Bool :=
  if filter.filterResults then
    match path with
    | none => false
    | some path => filter.comparePathPrefix.isPrefixOf path || path == filter.comparePath
  else true

/-- The remaining size is the rest of the buffer that was read. -/
def fanEventOk (memory : Bytes) (metadataItor : Nat) (remainingBufferSize : Int) : Option Bool :=
  if asUintptr remainingBufferSize < eventMetadataLen then some false
  else
    (Bytes.readNat memory metadataItor 4).map fun eventLen =>
      decide (eventMetadataLen ≤ eventLen) && decide (eventLen ≤ asUint32 remainingBufferSize)

/-- A handle has its type and its data, and the rest of the slice follows it. -/
structure FileHandle where
  handleType : Nat
  data : Bytes
  remaining : Nat
  remainingLen : Nat

/-- The slice is given by its start and its length; an invalid one is an error without a panic. -/
def newFileHandle (memory : Bytes) (handle length : Nat) : Except Failure (Option FileHandle) :=
  if length < fileHandleLen then .ok none
  else
    match Bytes.readNat memory handle 4 with
    | none => .error .fault
    | some handleBytes =>
        if length < fileHandleLen + handleBytes then .ok none
        else
          match Bytes.readNat memory (handle + 4) 4,
            Bytes.read memory (handle + fileHandleLen) handleBytes with
          | some handleType, some data =>
              .ok (some ⟨handleType, data, handle + fileHandleLen + handleBytes,
                length - (fileHandleLen + handleBytes)⟩)
          | _, _ => .error .fault

/-- The name ends before the first zero byte or with the slice. -/
def scanName (memory : Bytes) : (start length : Nat) → Option Bytes
  | _, 0 => some []
  | start, length + 1 =>
      match Bytes.readNat memory start 1 with
      | none => none
      | some 0 => some []
      | some byte => (scanName memory (start + 1) length).map (UInt8.ofNat byte :: ·)

/-- The result of a record is a directory and a name; an error gives neither. -/
structure ParsedName where
  dirpath : Option Bytes
  filename : Bytes
  deriving DecidableEq, Repr

def ParsedName.none : ParsedName := ⟨Option.none, []⟩

/-- A handle that is stale or cannot be allocated keeps its name. -/
def parseDfidName (kernel : Kernel) (memory : Bytes) (calls data length : Nat) :
    Except Failure (ParsedName × Nat) :=
  if length < infoFidLen then .ok (.none, calls)
  else
    match newFileHandle memory (data + infoFidLen) (length - infoFidLen) with
    | .error failure => .error failure
    | .ok none => .ok (.none, calls)
    | .ok (some handle) =>
        match scanName memory handle.remaining handle.remainingLen with
        | none => .error .fault
        | some filename =>
            -- The expression `&remaining[0]` panics for an empty slice.
            if handle.remainingLen = 0 then .error .indexOutOfRange
            else
              match kernel.openByHandleAt calls handle.handleType handle.data with
              | .error errno =>
                  if errno = estale ∨ errno = enomem then .ok (⟨none, filename⟩, calls + 1)
                  else .ok (.none, calls + 1)
              | .ok fd =>
                  match kernel.readlink calls fd with
                  | .error _ => .ok (.none, calls + 1)
                  | .ok link => .ok (⟨some link, filename⟩, calls + 1)

/-- A record gives its name, the next record and the bytes that are left, which can be negative. -/
structure ProcessedInfo where
  parsed : ParsedName
  nextInfo : Option Nat
  remainingBufferSize : Int
  calls : Nat

def processEventInfo (kernel : Kernel) (memory : Bytes) (calls infoItor : Nat) (bufferSize : Int) :
    Except Failure ProcessedInfo :=
  if bufferSize = 0 then .ok ⟨.none, none, 0, calls⟩
  else
    match Bytes.readNat memory infoItor 1, Bytes.readNat memory (infoItor + 2) 2 with
    | some infoType, some length =>
        (if infoType = infoTypeDfidName then parseDfidName kernel memory calls infoItor length
          else .ok (.none, calls)).map fun (parsed, after) =>
            let left := bufferSize - length
            ⟨parsed, if infoHeaderLen < asUintptr left then some (infoItor + length) else none,
              left, after⟩
    | _, _ => .error .fault

/-- The outer loop is at an event with the rest of the buffer and the results so far. -/
structure Outer where
  metadataItor : Nat
  n : Int
  results : List Event
  calls : Nat
  deriving DecidableEq

/-- The parser is at the test of its outer loop or of its inner one. -/
inductive Config where
  | event (outer : Outer)
  | info (outer : Outer) (metadata : Metadata) (infoItor : Nat) (left : Int) (parsed : ParsedName)
  deriving DecidableEq

abbrev Outcome := Except Failure (List Event)

/-- After its records an event is reported, and the outer loop goes on behind it. -/
def finishEvent (filter : Filter) (outer : Outer) (metadata : Metadata) (parsed : ParsedName) :
    Iteration.Turn Config Outcome :=
  if parsed.filename = [] then .stop (.error .noFilepath)
  else if filter.allowPath parsed.dirpath ∧ parseEventMask metadata.mask = none then
    -- Printing the event asks for the names of its mask.
    .stop (.error .noEventsForMask)
  else
    let results := if filter.allowPath parsed.dirpath then
      outer.results ++ [⟨parsed.dirpath, parsed.filename, metadata.mask⟩] else outer.results
    let n := outer.n - metadata.eventLen
    if n < 0 then .stop (.error .negativeBufferSize)
    else if n = 0 then .stop (.ok results)
    else .next (.event ⟨outer.metadataItor + metadata.eventLen, n, results, outer.calls⟩)

/-- One turn of the outer loop ends at the first record, and one of the inner loop reads one. -/
def turn (filter : Filter) (kernel : Kernel) (memory : Bytes) :
    Config → Iteration.Turn Config Outcome
  | .event outer =>
      match fanEventOk memory outer.metadataItor outer.n with
      | none => .stop (.error .fault)
      | some false => .stop (.ok outer.results)
      | some true =>
          match readMetadata memory outer.metadataItor with
          | none => .stop (.error .fault)
          | some metadata =>
              if metadata.vers ≠ metadataVersion then .stop (.error .invalidVersion)
              else if metadata.mask &&& fanQOverflow ≠ 0 then
                -- The statement `continue` returns to the test with the same event.
                .next (.event outer)
              else
                let left := (metadata.eventLen : Int) - eventMetadataLen
                if infoHeaderLen < asUintptr left then
                  .next (.info outer metadata (outer.metadataItor + eventMetadataLen) left .none)
                else finishEvent filter outer metadata .none
  | .info outer metadata infoItor left parsed =>
      match processEventInfo kernel memory outer.calls infoItor left with
      | .error failure => .stop (.error failure)
      | .ok record =>
          let named := if record.parsed.filename = [] then parsed else record.parsed
          let later := { outer with calls := record.calls }
          match record.nextInfo with
          | some next => .next (.info later metadata next record.remainingBufferSize named)
          | none => finishEvent filter later metadata named

/-- The parser starts at the first byte of a buffer that is not empty. -/
def start (buff : Bytes) : Config := .event ⟨0, buff.length, [], 0⟩

/-- A read without bytes is the error `EOF`, and `ReadEvents` returns it without events. -/
def ReadEvents (filter : Filter) (kernel : Kernel) (data beyond : Bytes)
    (outcome : Except Failure (Option (List Event))) : Prop :=
  if data = [] then outcome = .ok none
  else ∃ parsed, Iteration.Gives (turn filter kernel (data ++ beyond)) (start data) parsed ∧
    outcome = parsed.map some

end ClamavDbscan.FSWatcher
