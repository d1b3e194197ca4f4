import ClamavDbscan.Library.Iteration
import ClamavDbscan.Proof.Fanotify.Encoding

/-
This file defines where the lengths in a buffer of events lead, and proves that every record that
the kernel writes fits its event.
-/

namespace ClamavDbscan.FSWatcher

open Fanotify Iteration

/-- The handle at the front of a slice ends inside of the slice. -/
def handleEnd (memory : Bytes) (handle length : Nat) : Option Nat :=
  if fileHandleLen ≤ length then
    (Bytes.readNat memory handle 4).bind fun handleBytes =>
      if fileHandleLen + handleBytes ≤ length then some (fileHandleLen + handleBytes) else none
  else none

theorem handleEnd_le {memory : Bytes} {handle length stop : Nat}
    (ends : handleEnd memory handle length = some stop) : stop ≤ length := by
  obtain ⟨_, ends⟩ := Option.ite_none_right_eq_some.mp ends
  obtain ⟨handleBytes, _, ends⟩ := Option.bind_eq_some_iff.mp ends
  obtain ⟨inside, same⟩ := Option.ite_none_right_eq_some.mp ends
  exact Option.some.inj same ▸ inside

/-- The name of a directory record begins behind its handle. -/
def nameOffset (memory : Bytes) (record length : Nat) : Option Nat :=
  if Bytes.readNat memory record 1 = some infoTypeDfidName ∧ infoFidLen ≤ length then
    (handleEnd memory (record + infoFidLen) (length - infoFidLen)).map (infoFidLen + ·)
  else none

def hasName (memory : Bytes) (record length : Nat) : Bool :=
  (nameOffset memory record length).any fun offset =>
    decide (offset < length) && Bytes.readNat memory (record + offset) 1 != some 0

theorem hasName_iff {memory : Bytes} {record length stop : Nat}
    (offset : nameOffset memory record length = some stop) :
    hasName memory record length = true ↔
      stop < length ∧ Bytes.readNat memory (record + stop) 1 ≠ some 0 := by
  rw [hasName, offset, Option.any_some, Bool.and_eq_true, decide_eq_true_eq, bne_iff_ne]

/-- A record without a place for a name has none. -/
theorem hasName_of_none {memory : Bytes} {record length : Nat}
    (absent : nameOffset memory record length = none) : hasName memory record length = false := by
  rw [hasName, absent, Option.any_none]

/-- A place in a buffer is an event, or a record with the bytes of its event from there on. -/
inductive Place where
  | event (offset : Nat)
  | record (offset left : Nat) (named : Bool)
  deriving DecidableEq, Repr

/-- The event is complete, it is not about an overflow, and it has a record. -/
def Walked (data : Bytes) (offset : Nat) (metadata : Metadata) : Prop :=
  offset + metadata.eventLen ≤ data.length ∧ metadata.vers = metadataVersion ∧
    metadata.mask &&& fanQOverflow = 0 ∧ eventMetadataLen + infoHeaderLen < metadata.eventLen

instance (data : Bytes) (offset : Nat) (metadata : Metadata) :
    Decidable (Walked data offset metadata) := inferInstanceAs (Decidable (_ ∧ _))

/-- The lengths in a buffer lead from record to record, and from an event with a name to the next. -/
def layout (data : Bytes) : Place → Turn Place Unit
  | .event offset =>
      match readMetadata data offset with
      | none => .stop ()
      | some metadata =>
          if Walked data offset metadata then
            .next (.record (offset + eventMetadataLen) (metadata.eventLen - eventMetadataLen) false)
          else .stop ()
  | .record offset left named =>
      match Bytes.readNat data (offset + 2) 2 with
      | none => .stop ()
      | some length =>
          let named := named || hasName data offset length
          if infoHeaderLen + length < left then .next (.record (offset + length) (left - length) named)
          else if named ∧ offset + left < data.length then .next (.event (offset + left))
          else .stop ()

/-- A record ends inside of its event, and its handle leaves a byte for the name. -/
def Place.Fits (data : Bytes) : Place → Prop
  | .event _ => True
  | .record offset left _ => ∀ length, Bytes.readNat data (offset + 2) 2 = some length →
      length ≤ left ∧ nameOffset data offset length ≠ some length

/-- Every record that the lengths in the buffer lead to fits. -/
def RecordsFit (data : Bytes) : Prop :=
  ∀ place, Passes (layout data) (.event 0) place → place.Fits data

variable {data : Bytes} {offset left : Nat} {named : Bool}

theorem nameOffset_fid {record : FidRecord} (holds : Bytes.Holds data offset record.encode) (length : Nat) :
    nameOffset data offset length = none := by
  have typed := readNat_infoType holds.left (by decide)
  exact if_neg fun both => absurd (typed.symm.trans both.1) (by decide)

/-- The name of a directory record lies behind its handle. -/
theorem nameOffset_dfidName {record : DfidNameRecord} (holds : Bytes.Holds data offset record.encode) :
    nameOffset data offset record.size = some (infoFidLen + (fileHandleLen + record.handle.length)) ∧
      infoFidLen + (fileHandleLen + record.handle.length) < record.size ∧
      hasName data offset record.size = true := by
  have typed := readNat_infoType holds.left (by decide)
  have handle := holds.right.right
  rw [length_encodeHeader, Bytes.length_ofNat] at handle
  change Bytes.Holds data (offset + infoFidLen) _ at handle
  obtain ⟨size, _⟩ := read_handle handle.left record.handle_lt
  have name := handle.right
  rw [length_encodeHandle] at name
  have room : infoFidLen + (fileHandleLen + record.handle.length) < record.size := by
    simp only [DfidNameRecord.size]
    omega
  have found : nameOffset data offset record.size =
      some (infoFidLen + (fileHandleLen + record.handle.length)) := by
    have enough : infoFidLen ≤ record.size := by omega
    have fits : fileHandleLen ≤ record.size - infoFidLen := by omega
    rw [nameOffset, if_pos ⟨typed, enough⟩, handleEnd, if_pos fits, size, Option.bind_some,
      if_pos (by omega), Option.map_some]
  refine ⟨found, room, ?_⟩
  obtain ⟨first, others, spelled⟩ := List.exists_cons_of_ne_nil record.named
  have nonzero : first ≠ 0 := by
    intro zero
    apply record.terminated
    rw [spelled, zero]
    exact List.mem_cons_self
  rw [spelled] at name
  have byte := name.readNat_one
  rw [hasName, found, Option.any_some, ← Nat.add_assoc offset, byte, decide_eq_true room, Bool.true_and,
    bne_iff_ne, ne_eq, Option.some.injEq]
  exact fun zero => nonzero (UInt8.toNat_inj.mp zero)

theorem fits_fid {record : FidRecord} (holds : Bytes.Holds data offset record.encode)
    (room : record.size ≤ left) : (Place.record offset left named).Fits data := by
  intro length sized
  obtain rfl := Option.some.inj ((readNat_infoLength holds.left record.size_lt).symm.trans sized)
  exact ⟨room, by simp [nameOffset_fid holds]⟩

theorem fits_dfidName {record : DfidNameRecord} (holds : Bytes.Holds data offset record.encode)
    (room : record.size ≤ left) : (Place.record offset left named).Fits data := by
  intro length sized
  obtain rfl := Option.some.inj ((readNat_infoLength holds.left record.size_lt).symm.trans sized)
  obtain ⟨found, behind, _⟩ := nameOffset_dfidName holds
  refine ⟨room, ?_⟩
  rw [found, ne_eq, Option.some.injEq]
  exact Nat.ne_of_lt behind

section Walk

variable {length : Nat}

/-- A record before another one leads to it. -/
theorem layout_record_more (left : Nat) (named : Bool)
    (sized : Bytes.readNat data (offset + 2) 2 = some length)
    (more : infoHeaderLen + length < left) :
    layout data (.record offset left named) =
      .next (.record (offset + length) (left - length) (named || hasName data offset length)) := by
  rw [layout, sized]
  exact if_pos more

/-- The last record of an event leads to the next event of the buffer. -/
theorem layout_record_last (left : Nat) (named : Bool)
    (sized : Bytes.readNat data (offset + 2) 2 = some length)
    (last : left ≤ infoHeaderLen + length) :
    layout data (.record offset left named) = .stop () ∨
      layout data (.record offset left named) = .next (.event (offset + left)) := by
  rw [layout, sized]
  dsimp only
  rw [if_neg (Nat.not_lt.mpr last)]
  split
  · exact .inr rfl
  · exact .inl rfl

/-- The records of the object lead on, if there is one. -/
theorem walk_encodeFid (left : Nat) {fid : Option FidRecord}
    (holds : Bytes.Holds data offset (KernelEvent.encodeFid fid))
    (room : (KernelEvent.encodeFid fid).length + infoHeaderLen < left) :
    PassesThrough (layout data) (Place.Fits data) (.record offset left false)
      (.record (offset + (KernelEvent.encodeFid fid).length)
        (left - (KernelEvent.encodeFid fid).length) false) := by
  cases fid with
  | none => exact .refl _ _ _
  | some record =>
      have length : (KernelEvent.encodeFid (some record)).length = record.size :=
        record.length_encode
      rw [length] at room ⊢
      have nameless : hasName data offset record.size = false :=
        hasName_of_none (nameOffset_fid holds _)
      have led := layout_record_more left false (readNat_infoLength holds.left record.size_lt) (by omega)
      rw [nameless, Bool.or_false] at led
      exact .step (fits_fid holds (by omega)) led

/-- From the directory record on, a fitting record is the last one of the event. -/
theorem walk_dfidName (left : Nat) (named : Bool) {record : DfidNameRecord} {fid : Option FidRecord}
    (holds : Bytes.Holds data offset (record.encode ++ KernelEvent.encodeFid fid))
    (whole : left = record.size + (KernelEvent.encodeFid fid).length) :
    ∃ last, PassesThrough (layout data) (Place.Fits data) (.record offset left named) last ∧
      last.Fits data ∧
      (layout data last = .stop () ∨ layout data last = .next (.event (offset + left))) := by
  have sized := readNat_infoLength holds.left.left record.size_lt
  have behind := holds.right
  rw [record.length_encode] at behind
  cases fid with
  | none =>
      have last : left = record.size := whole
      exact ⟨_, .refl _ _ _, fits_dfidName holds.left (Nat.le_of_eq last.symm),
        layout_record_last left named sized (by omega)⟩
  | some other =>
      have length : (KernelEvent.encodeFid (some other)).length = other.size := other.length_encode
      have positive := other.header_lt_size
      rw [length] at whole
      have led := layout_record_more left named sized (by omega)
      have ends := layout_record_last (left - record.size) (named || hasName data offset record.size)
        (readNat_infoLength behind.left other.size_lt) (by omega)
      have place : offset + record.size + (left - record.size) = offset + left := by omega
      rw [place] at ends
      exact ⟨_, .step (fits_dfidName holds.left (by omega)) led, fits_fid behind (by omega), ends⟩

/-- The layout of an event leads through its records to the end of the event. -/
theorem walk_event {event : KernelEvent} (holds : Bytes.Holds data offset event.encode) :
    ∃ last, PassesThrough (layout data) (Place.Fits data) (.event offset) last ∧ last.Fits data ∧
      (layout data last = .stop () ∨ layout data last = .next (.event (offset + event.size))) := by
  by_cases walked : Walked data offset event.metadata
  · have found := event.readMetadata_encode holds.left
    have entered : layout data (.event offset) =
        .next (.record (offset + eventMetadataLen) (event.size - eventMetadataLen) false) := by
      rw [layout, found]
      exact if_pos walked
    have size := event.size_eq
    have positive := event.dfidName.header_lt_size
    have records := holds.right
    rw [event.length_encodeMetadata] at records
    have before := walk_encodeFid (event.size - eventMetadataLen) records.left (by omega)
    obtain ⟨last, through, fits, ends⟩ := walk_dfidName
      (event.size - eventMetadataLen - (KernelEvent.encodeFid event.before).length) false records.right
      (by omega)
    have place : offset + eventMetadataLen + (KernelEvent.encodeFid event.before).length +
        (event.size - eventMetadataLen - (KernelEvent.encodeFid event.before).length) =
          offset + event.size := by omega
    rw [place] at ends
    exact ⟨last, (PassesThrough.step trivial entered).trans (before.trans through), fits, ends⟩
  · refine ⟨_, .refl _ _ _, trivial, .inl ?_⟩
    rw [layout, event.readMetadata_encode holds.left]
    exact if_neg walked

theorem walk_events {events : List KernelEvent} (holds : Bytes.Holds data offset (encodeEvents events))
    (whole : offset + (encodeEvents events).length = data.length) :
    ∃ last, PassesThrough (layout data) (Place.Fits data) (.event offset) last ∧ last.Fits data ∧
      layout data last = .stop () := by
  induction events generalizing offset with
  | nil =>
      refine ⟨_, .refl _ _ _, trivial, ?_⟩
      have behind : ¬ offset + eventMetadataLen ≤ data.length := by
        change offset + 0 = _ at whole
        change ¬ offset + 24 ≤ _
        omega
      rw [layout, readMetadata, Bytes.read, if_neg behind, Option.map_none]
  | cons event others ih =>
      rw [length_encodeEvents_cons] at whole
      have rest := holds.right
      rw [event.length_encode] at rest
      obtain ⟨last, through, fits, stops | leads⟩ := walk_event holds.left
      · exact ⟨last, through, fits, stops⟩
      · obtain ⟨final, onwards, fitting, stops⟩ := ih rest (by omega)
        exact ⟨final, (through.trans (.step fits leads)).trans onwards, fitting, stops⟩

end Walk

/-- Every buffer that the kernel fills has records that fit. -/
theorem recordsFit_encodeEvents (events : List KernelEvent) : RecordsFit (encodeEvents events) := by
  obtain ⟨last, through, fits, stops⟩ :=
    walk_events (.self (encodeEvents events)) (Nat.zero_add _)
  exact fun place passed => through.good_of_passes fits stops passed

end ClamavDbscan.FSWatcher
