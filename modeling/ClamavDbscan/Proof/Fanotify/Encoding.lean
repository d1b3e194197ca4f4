import ClamavDbscan.Construction.Fanotify.KernelEvent

/-
This file proves the lengths of encoded events and what a reader finds in them.
-/

namespace ClamavDbscan.Fanotify

open Bytes

@[simp] theorem length_encodeHeader (infoType length : Nat) :
    (encodeHeader infoType length).length = infoHeaderLen := by
  simp [encodeHeader, infoHeaderLen]

@[simp] theorem length_encodeHandle (handleType : UInt32) (handle : Bytes) :
    (encodeHandle handleType handle).length = fileHandleLen + handle.length := by
  simp [encodeHandle, fileHandleLen]
  omega

theorem FidRecord.length_encode (record : FidRecord) : record.encode.length = record.size := by
  simp [encode, size, infoFidLen, infoHeaderLen, fileHandleLen]
  omega

theorem DfidNameRecord.length_encode (record : DfidNameRecord) :
    record.encode.length = record.size := by
  simp [encode, padding, size, infoFidLen, infoHeaderLen, fileHandleLen]
  omega

theorem FidRecord.size_lt (record : FidRecord) : record.size < 256 ^ 2 := record.fits

theorem FidRecord.header_lt_size (record : FidRecord) : infoHeaderLen < record.size := by
  simp only [size, infoFidLen, fileHandleLen, infoHeaderLen]
  omega

theorem DfidNameRecord.size_lt (record : DfidNameRecord) : record.size < 256 ^ 2 := by
  have fits := record.fits
  simp only [size]
  omega

theorem DfidNameRecord.handle_lt (record : DfidNameRecord) : record.handle.length < 256 ^ 4 := by
  have fits := record.fits
  omega

theorem DfidNameRecord.header_lt_size (record : DfidNameRecord) : infoHeaderLen < record.size := by
  simp only [size, infoFidLen, fileHandleLen, infoHeaderLen]
  omega

theorem KernelEvent.length_encodeFid_lt (fid : Option FidRecord) :
    (encodeFid fid).length < 256 ^ 2 := by
  cases fid with
  | none => decide
  | some record => simpa [encodeFid, record.length_encode] using record.size_lt

/-- The length of an event is its first field. -/
theorem readMetadata_eventLen {memory : Bytes} {offset : Nat} {metadata : Metadata}
    (found : readMetadata memory offset = some metadata) :
    readNat memory offset 4 = some metadata.eventLen := by
  obtain ⟨bytes, taken, rfl⟩ := Option.map_eq_some_iff.mp found
  obtain ⟨inside, same⟩ := Option.ite_none_right_eq_some.mp taken
  have fits : offset + 4 ≤ memory.length := by
    unfold eventMetadataLen at inside
    omega
  unfold readNat Bytes.read
  rw [if_pos fits, ← Option.some.inj same, List.take_take]
  rfl

/-- The metadata of an event between the offsets is loaded from the memory. -/
theorem loadMetadata_stays {memory : Bytes} {offset low high : Nat} (begins : low ≤ offset)
    (ends : offset + eventMetadataLen ≤ high) (mapped : high ≤ memory.length) :
    Loads.Stays memory low high (loadMetadata offset)
      fun metadata => readMetadata memory offset = some metadata :=
  .bind (.bytes begins ends mapped) fun bytes _ found =>
    .give (by rw [readMetadata, found, Option.map_some])

namespace KernelEvent

variable (event : KernelEvent)

@[simp] theorem length_encodeMetadata : event.encodeMetadata.length = eventMetadataLen := by
  simp [encodeMetadata, eventMetadataLen]

@[simp] theorem length_encode : event.encode.length = event.size := by
  simp [encode, size]

theorem size_lt : event.size < 256 ^ 4 := by
  have before := length_encodeFid_lt event.before
  have after := length_encodeFid_lt event.after
  have dfidName := event.dfidName.size_lt
  simp only [size, records, List.length_append, event.dfidName.length_encode, eventMetadataLen]
  omega

/-- The records of an event end where the event ends. -/
theorem size_eq : event.size = eventMetadataLen + (encodeFid event.before).length +
    event.dfidName.size + (encodeFid event.after).length := by
  simp only [size, records, List.length_append, event.dfidName.length_encode]
  omega

theorem metadata_le_size : eventMetadataLen ≤ event.size := Nat.le_add_right _ _

/-- A reader gets these fields from the header of an event. -/
def metadata : Metadata := ⟨event.size, metadataVersion, event.mask.toNat, fanNofd⟩

theorem readMetadata_encode {memory : Bytes} {offset : Nat}
    (holds : Holds memory offset event.encodeMetadata) :
    readMetadata memory offset = some event.metadata := by
  have found := holds.read
  rw [length_encodeMetadata] at found
  rw [readMetadata, found, Option.map_some]
  have whole : Holds event.encodeMetadata 0 event.encodeMetadata := .self _
  have size := whole.left.slice
  have vers := whole.right.left.slice
  have mask := whole.right.right.right.right.left.slice
  have fd := whole.right.right.right.right.right.left.slice
  simp only [length_ofNat, List.drop_zero] at size vers mask fd
  rw [size, vers, mask, fd, littleEndian_ofNat event.size_lt,
    littleEndian_ofNat (by decide : metadataVersion < 256 ^ 1),
    littleEndian_ofNat event.mask.toNat_lt, littleEndian_ofNat (by decide : fanNofd < 256 ^ 4),
    metadata]

end KernelEvent

theorem length_encodeEvents_cons (event : KernelEvent) (others : List KernelEvent) :
    (encodeEvents (event :: others)).length = event.size + (encodeEvents others).length := by
  simp [encodeEvents]

section Reading

variable {memory : Bytes} {offset infoType length : Nat}

theorem readNat_infoType (holds : Holds memory offset (encodeHeader infoType length))
    (fits : infoType < 256) : readNat memory offset 1 = some infoType := by
  rw [encodeHeader, List.append_assoc] at holds
  exact holds.left.readNat fits

theorem readNat_infoLength (holds : Holds memory offset (encodeHeader infoType length))
    (fits : length < 256 ^ 2) : readNat memory (offset + 2) 2 = some length := by
  have found := holds.right
  simp only [List.length_append, length_ofNat] at found
  exact found.readNat fits

/-- A reader finds the size, the type and the bytes of a handle. -/
theorem read_handle {handleType : UInt32} {handle : Bytes}
    (holds : Holds memory offset (encodeHandle handleType handle))
    (fits : handle.length < 256 ^ 4) :
    readNat memory offset 4 = some handle.length ∧
      readNat memory (offset + 4) 4 = some handleType.toNat ∧
      read memory (offset + fileHandleLen) handle.length = some handle := by
  have data := holds.right
  rw [encodeHandle, List.append_assoc] at holds
  have kind := holds.right.left
  simp only [List.length_append, length_ofNat] at data kind
  exact ⟨holds.left.readNat fits, kind.readNat handleType.toNat_lt, data.read⟩

end Reading

/-- A file `a` has been closed in a directory that a watcher of `/w` opens. -/
def closedFile : KernelEvent where
  mask := 0x8
  pid := 1
  before := none
  dfidName := ⟨1, 1, [1, 2], [0x61], by decide, by decide, by decide⟩
  after := some ⟨1, 1, [3], [0, 0, 0], by decide, by decide, by decide⟩
  oneFid := .inl rfl

end ClamavDbscan.Fanotify
