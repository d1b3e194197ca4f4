import ClamavDbscan.Construction.Fanotify.Layout

/-
This file defines the events that the kernel queues and the bytes that `read` returns for them.
-/

namespace ClamavDbscan.Fanotify

def encodeHeader (infoType length : Nat) : Bytes :=
  Bytes.ofNat 1 infoType ++ Bytes.ofNat 1 0 ++ Bytes.ofNat 2 length

def encodeHandle (handleType : UInt32) (handle : Bytes) : Bytes :=
  Bytes.ofNat 4 handle.length ++ Bytes.ofNat 4 handleType.toNat ++ handle

/-- The record of the object itself ends with its handle or with at most three more bytes, up to a multiple of
four. -/
structure FidRecord where
  fsid : UInt64
  handleType : UInt32
  handle : Bytes
  padding : Bytes
  paddingFits : padding.length ≤ 3
  aligned : (infoFidLen + fileHandleLen + handle.length + padding.length) % 4 = 0
  fits : infoFidLen + fileHandleLen + handle.length + padding.length < 2 ^ 16
  deriving DecidableEq

namespace FidRecord

def size (record : FidRecord) : Nat :=
  infoFidLen + fileHandleLen + record.handle.length + record.padding.length

def encode (record : FidRecord) : Bytes :=
  encodeHeader infoTypeFid record.size ++ (Bytes.ofNat 8 record.fsid.toNat ++
    (encodeHandle record.handleType record.handle ++ record.padding))

end FidRecord

/-- The record of the directory holds the name of the file in it. The size of the record, which
is rounded up to a multiple of four, fits its field. -/
structure DfidNameRecord where
  fsid : UInt64
  handleType : UInt32
  handle : Bytes
  name : Bytes
  named : name ≠ []
  fits : infoFidLen + fileHandleLen + handle.length + (name.length + 1) + 3 < 2 ^ 16
  terminated : 0 ∉ name
  deriving DecidableEq

namespace DfidNameRecord

/-- The record with the terminator of its name is rounded up to a multiple of four. -/
def size (record : DfidNameRecord) : Nat :=
  (infoFidLen + fileHandleLen + record.handle.length + (record.name.length + 1) + 3) / 4 * 4

def padding (record : DfidNameRecord) : Bytes :=
  List.replicate (record.size -
    (infoFidLen + fileHandleLen + record.handle.length + (record.name.length + 1))) 0

def encode (record : DfidNameRecord) : Bytes :=
  encodeHeader infoTypeDfidName record.size ++ (Bytes.ofNat 8 record.fsid.toNat ++
    (encodeHandle record.handleType record.handle ++ (record.name ++ 0 :: record.padding)))

end DfidNameRecord

/-- An event names a directory and a file, and at most one record of the object goes with it. -/
structure KernelEvent where
  mask : UInt64
  pid : UInt32
  before : Option FidRecord
  dfidName : DfidNameRecord
  after : Option FidRecord
  oneFid : before = none ∨ after = none
  deriving DecidableEq

namespace KernelEvent

def encodeFid (fid : Option FidRecord) : Bytes := (fid.map FidRecord.encode).getD []

def records (event : KernelEvent) : Bytes :=
  encodeFid event.before ++ (event.dfidName.encode ++ encodeFid event.after)

def size (event : KernelEvent) : Nat := eventMetadataLen + event.records.length

def encodeMetadata (event : KernelEvent) : Bytes :=
  Bytes.ofNat 4 event.size ++ (Bytes.ofNat 1 metadataVersion ++ (Bytes.ofNat 1 0 ++
    (Bytes.ofNat 2 eventMetadataLen ++ (Bytes.ofNat 8 event.mask.toNat ++
      (Bytes.ofNat 4 fanNofd ++ Bytes.ofNat 4 event.pid.toNat)))))

def encode (event : KernelEvent) : Bytes := event.encodeMetadata ++ event.records

end KernelEvent

def encodeEvents (events : List KernelEvent) : Bytes := events.flatMap KernelEvent.encode

/-- The kernel resolves the handle of each event to the path of a directory, or it fails. -/
abbrev Directories := (call : Nat) → (handleType : Nat) → (handle : Bytes) → Option Bytes

def Directories.dirpath (directories : Directories) (call : Nat) (event : KernelEvent) :
    Option Bytes :=
  directories call event.dfidName.handleType.toNat event.dfidName.handle

/-- These are the leading events that fit in the room, and the events that stay queued. -/
def takeFitting : (room : Nat) → List KernelEvent → List KernelEvent × List KernelEvent
  | _, [] => ([], [])
  | room, event :: others =>
      if event.size ≤ room then
        let (fitting, rest) := takeFitting (room - event.size) others
        (event :: fitting, rest)
      else ([], event :: others)

/-- A read fails with `EINVAL` and dequeues nothing if the first event does not fit. -/
def readEvents (count : Nat) (queue : List KernelEvent) : Option Bytes × List KernelEvent :=
  match takeFitting count queue with
  | ([], rest) => (none, rest)
  | (fitting, rest) => (some (encodeEvents fitting), rest)

end ClamavDbscan.Fanotify
