import ClamavDbscan.Construction.FSWatcher.ParseEventBuffer

/-
This file follows the event parser of the Go watcher load by load.
-/

namespace ClamavDbscan.FSWatcher

open Fanotify

def fanEventOkLoads (metadataItor : Nat) (remainingBufferSize : Int) : Loads Bool :=
  if asUintptr remainingBufferSize < eventMetadataLen then pure false
  else do
    let eventLen ← Loads.nat metadataItor 4
    pure (decide (eventMetadataLen ≤ eventLen) && decide (eventLen ≤ asUint32 remainingBufferSize))

def newFileHandleLoads (handle length : Nat) : Loads (Option FileHandle) :=
  if length < fileHandleLen then pure none
  else do
    let handleBytes ← Loads.nat handle 4
    if length < fileHandleLen + handleBytes then pure none
    else
      let handleType ← Loads.nat (handle + 4) 4
      let data ← Loads.bytes (handle + fileHandleLen) handleBytes
      pure (some ⟨handleType, data, handle + fileHandleLen + handleBytes,
        length - (fileHandleLen + handleBytes)⟩)

/-- The slice starts at its header, whose type is tested again. -/
def parseDfidNameLoads (kernel : Kernel) (calls data length : Nat) :
    Loads (Except Failure (ParsedName × Nat)) :=
  if length < infoFidLen then pure (.ok (.none, calls))
  else do
    let infoType ← Loads.nat data 1
    if infoType ≠ infoTypeDfidName then pure (.ok (.none, calls))
    else
      match ← newFileHandleLoads (data + infoFidLen) (length - infoFidLen) with
      | none => pure (.ok (.none, calls))
      | some handle =>
          let filename ← Loads.string handle.remainingLen handle.remaining
          if handle.remainingLen = 0 then pure (.error .indexOutOfRange)
          else
            match kernel.openByHandleAt calls handle.handleType handle.data with
            | .error errno =>
                if errno = estale ∨ errno = enomem then pure (.ok (⟨none, filename⟩, calls + 1))
                else pure (.ok (.none, calls + 1))
            | .ok fd =>
                match kernel.readlink calls fd with
                | .error _ => pure (.ok (.none, calls + 1))
                | .ok link => pure (.ok (⟨some link, filename⟩, calls + 1))

/-- The switch over the type of a record loads the length of a directory record. -/
def parseInfoLoads (kernel : Kernel) (calls infoItor : Nat) :
    Loads (Except Failure (ParsedName × Nat)) := do
  let infoType ← Loads.nat infoItor 1
  if infoType = infoTypeDfidName then
    let length ← Loads.nat (infoItor + 2) 2
    parseDfidNameLoads kernel calls infoItor length
  else pure (.ok (.none, calls))

/-- The length of the record is loaded again for the next record. -/
def processEventInfoLoads (kernel : Kernel) (calls infoItor : Nat) (bufferSize : Int) :
    Loads (Except Failure ProcessedInfo) :=
  if bufferSize = 0 then pure (.ok ⟨.none, none, 0, calls⟩)
  else do
    match ← parseInfoLoads kernel calls infoItor with
    | .error failure => pure (.error failure)
    | .ok (name, after) =>
        let length ← Loads.nat (infoItor + 2) 2
        let left := bufferSize - length
        pure (.ok ⟨name, if infoHeaderLen < asUintptr left then some (infoItor + length) else none,
          left, after⟩)

/-- An accepted event is entered at its first record. -/
def enterEvent (filter : Filter) (outer : Outer) (metadata : Metadata) :
    Iteration.Turn Config Outcome :=
  if metadata.vers ≠ metadataVersion then .stop (.error .invalidVersion)
  else if metadata.mask &&& fanQOverflow ≠ 0 then .next (.event outer)
  else
    let left := (metadata.eventLen : Int) - eventMetadataLen
    if infoHeaderLen < asUintptr left then
      .next (.info outer metadata (outer.metadataItor + eventMetadataLen) left .none)
    else finishEvent filter outer metadata .none

/-- A record is followed by the next one or by the end of its event. -/
def afterInfo (filter : Filter) (outer : Outer) (metadata : Metadata) (parsed : ParsedName)
    (record : ProcessedInfo) : Iteration.Turn Config Outcome :=
  let named := if record.parsed.filename = [] then parsed else record.parsed
  let later := { outer with calls := record.calls }
  match record.nextInfo with
  | some next => .next (.info later metadata next record.remainingBufferSize named)
  | none => finishEvent filter later metadata named

def turnLoads (filter : Filter) (kernel : Kernel) : Config → Loads (Iteration.Turn Config Outcome)
  | .event outer => do
      let accepted ← fanEventOkLoads outer.metadataItor outer.n
      if accepted then
        let metadata ← loadMetadata outer.metadataItor
        pure (enterEvent filter outer metadata)
      else pure (.stop (.ok outer.results))
  | .info outer metadata infoItor left parsed => do
      match ← processEventInfoLoads kernel outer.calls infoItor left with
      | .error failure => pure (.stop (.error failure))
      | .ok record => pure (afterInfo filter outer metadata parsed record)

end ClamavDbscan.FSWatcher
