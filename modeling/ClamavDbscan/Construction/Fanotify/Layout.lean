import ClamavDbscan.Library.Loads

/-
This file defines the layout of fanotify events on a little-endian machine.
-/

namespace ClamavDbscan.Fanotify

def eventMetadataLen : Nat := 24

def metadataVersion : Nat := 3

def infoHeaderLen : Nat := 4

/-- The header with the file system identifier. -/
def infoFidLen : Nat := 12

/-- The header of a file handle holds its size and its type. -/
def fileHandleLen : Nat := 8

def infoTypeFid : Nat := 1

def infoTypeDfidName : Nat := 2

def fanCloseWrite : Nat := 0x8

def fanMovedFrom : Nat := 0x40

def fanMovedTo : Nat := 0x80

def fanDelete : Nat := 0x200

/-- The watchers mark the file system for these changes. -/
def markedBits : List Nat := [fanCloseWrite, fanDelete, fanMovedFrom, fanMovedTo]

/-- The protocol of the watchers has these names for the marked changes. -/
def operationNames : List (Nat × String) :=
  [(fanCloseWrite, "close_for_write"), (fanDelete, "remove"), (fanMovedFrom, "move_from"),
    (fanMovedTo, "move_to")]

def operationsOf (mask : Nat) : List String :=
  (operationNames.filter fun entry => mask &&& entry.1 != 0).map Prod.snd

/-- The descriptor `-1` is read as an unsigned number. -/
def fanNofd : Nat := 0xffffffff

def fanQOverflow : Nat := 0x4000

/-- A slash stands between a directory and a name. -/
def slash : UInt8 := 0x2f

/-- These are the fields of an event's metadata that the watchers read. -/
structure Metadata where
  eventLen : Nat
  vers : Nat
  mask : Nat
  fd : Nat
  deriving DecidableEq, Repr

def readMetadata (memory : Bytes) (offset : Nat) : Option Metadata :=
  (Bytes.read memory offset eventMetadataLen).map fun bytes =>
    ⟨Bytes.littleEndian (bytes.take 4), Bytes.littleEndian ((bytes.drop 4).take 1),
      Bytes.littleEndian ((bytes.drop 8).take 8), Bytes.littleEndian ((bytes.drop 16).take 4)⟩

def loadMetadata (offset : Nat) : Loads Metadata := do
  let bytes ← Loads.bytes offset eventMetadataLen
  pure ⟨Bytes.littleEndian (bytes.take 4), Bytes.littleEndian ((bytes.drop 4).take 1),
    Bytes.littleEndian ((bytes.drop 8).take 8), Bytes.littleEndian ((bytes.drop 16).take 4)⟩

@[simp] theorem run_loadMetadata (memory : Bytes) (offset : Nat) :
    (loadMetadata offset).run memory = readMetadata memory offset := by
  rw [loadMetadata, Loads.run_bind, Loads.run_bytes, readMetadata]
  cases Bytes.read memory offset eventMetadataLen <;> rfl

@[simp] theorem regions_loadMetadata (memory : Bytes) (offset : Nat) :
    (loadMetadata offset).regions memory = [⟨offset, eventMetadataLen⟩] := by
  rw [loadMetadata, Loads.regions_bind, Loads.regions_bytes]
  cases (Loads.bytes offset eventMetadataLen).run memory <;> rfl

end ClamavDbscan.Fanotify
