import ClamavDbscan.Construction.Watcher.OnFsEvent

/-
This file follows the event parser of the C watcher load by load.
-/

namespace ClamavDbscan.Watcher

open Fanotify

/-- The kernel copies the handle, and the string behind it ends in the memory or faults behind it. -/
def dfidNamePathLoads (kernel : Kernel) (size calls fileHandle : Nat) : Loads (Option Bytes) := do
  let handleBytes ← Loads.nat fileHandle 4
  let handleType ← Loads.nat (fileHandle + 4) 4
  let handle ← Loads.bytes (fileHandle + fileHandleLen) handleBytes
  match kernel.openByHandleAt calls handleType handle with
  | none => pure none
  | some fd =>
      let handleBytes ← Loads.nat fileHandle 4
      let name ← Loads.string (size + 1) (fileHandle + fileHandleLen + handleBytes)
      let path := (kernel.safeReadlink calls fd).getD unreadableLink
      pure (some (path ++ slash :: name))

/-- The macro `FAN_EVENT_NEXT` loads the length from the buffer and not from the copy. -/
def finishEventLoads (comparePath : Bytes) (outer : Outer) (metadata : Metadata)
    (fullPath : Option Bytes) : Loads (Iteration.Turn Config Outcome) := do
  let eventLen ← Loads.nat outer.metadataItor 4
  pure (.next (.event { outer with
    metadataItor := outer.metadataItor + eventLen
    buflen := outer.buflen - eventLen
    processed := outer.processed ++ [processPath comparePath metadata.mask fullPath] }))

def nextInfoLoads (outer : Outer) (metadata : Metadata) (infoFd : Nat) (fullPath : Option Bytes) :
    Loads (Iteration.Turn Config Outcome) := do
  let length ← Loads.nat (infoFd + 2) 2
  pure (.next (.info outer metadata (infoFd + length) fullPath))

/-- The memory has this size. The test of the loop copies the metadata before it checks the rest. -/
def turnLoads (kernel : Kernel) (comparePath : Bytes) (size : Nat) :
    Config → Loads (Iteration.Turn Config Outcome)
  | .event outer => do
      let metadata ← loadMetadata outer.metadataItor
      if fanEventOk metadata outer.buflen then
        if metadata.vers ≠ metadataVersion then pure (.stop (.ok .wrongVersion))
        else if metadata.fd ≠ fanNofd then pure (.stop (.error .assertion))
        else
          -- The search for the path copies the metadata again.
          let copied ← loadMetadata outer.metadataItor
          pure (.next (.info outer copied (outer.metadataItor + eventMetadataLen) none))
      else pure (.stop (.ok (.finished outer.processed)))
  | .info outer metadata infoFd fullPath =>
      if infoFd < outer.metadataItor + metadata.eventLen then do
        let infoType ← Loads.nat infoFd 1
        if infoType = infoTypeDfidName then
          match ← dfidNamePathLoads kernel size outer.calls (infoFd + infoFidLen) with
          | none => finishEventLoads comparePath { outer with calls := outer.calls + 1 } metadata none
          | some path =>
              nextInfoLoads { outer with calls := outer.calls + 1 } metadata infoFd (some path)
        else nextInfoLoads outer metadata infoFd fullPath
      else finishEventLoads comparePath outer metadata fullPath

/-- A call on the result of `read` loads this region of the memory that begins with the buffer. -/
def Accesses (kernel : Kernel) (comparePath : Bytes) (stack : Stack) (data : Option Bytes)
    (region : Loads.Region) : Prop :=
  ∃ config, Iteration.Passes (turn kernel comparePath (fill stack data)) (.event ⟨0, buflen data, [], 0⟩)
      config ∧
    region ∈ (turnLoads kernel comparePath (fill stack data).length config).regions (fill stack data)

/-- Each access is inside of the buffer, and after a successful read inside of what was read. -/
def StaysInside (kernel : Kernel) (comparePath : Bytes) (stack : Stack) (data : Option Bytes) : Prop :=
  ∀ region, Accesses kernel comparePath stack data region →
    region.Within 0 bufferSize ∧ ∀ bytes ∈ data, region.Within 0 bytes.length

end ClamavDbscan.Watcher
