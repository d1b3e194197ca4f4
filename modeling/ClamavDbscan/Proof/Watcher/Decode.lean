import ClamavDbscan.Proof.Watcher.ParserLoads

/-
This file proves that the parser of the C watcher undoes the encoding of the kernel.
-/

namespace ClamavDbscan.Watcher

open Fanotify Iteration

/-- The path of an event is known if the handle of its directory can be opened. -/
def resolve (kernel : Kernel) (call : Nat) (record : DfidNameRecord) : Option Bytes :=
  (kernel.openByHandleAt call record.handleType.toNat record.handle).map fun fd =>
    (kernel.safeReadlink call fd).getD unreadableLink ++ slash :: record.name

def processEvent (kernel : Kernel) (comparePath : Bytes) (call : Nat) (event : KernelEvent) :
    Processed :=
  processPath comparePath event.mask.toNat (resolve kernel call event.dfidName)

/-- Each event opens one handle. -/
def processEvents (kernel : Kernel) (comparePath : Bytes) : (call : Nat) → List KernelEvent →
    List Processed
  | _, [] => []
  | call, event :: others =>
      processEvent kernel comparePath call event :: processEvents kernel comparePath (call + 1) others

variable {kernel : Kernel} {comparePath memory : Bytes} {outer : Outer} {metadata : Metadata}
  {infoFd : Nat} {fullPath : Option Bytes}

theorem cString_terminated {name : Bytes} (terminated : 0 ∉ name) (rest : Bytes) :
    cString (name ++ 0 :: rest) = some name := by
  induction name with
  | nil => simp [cString]
  | cons byte others ih =>
      rw [List.mem_cons, not_or] at terminated
      rw [List.cons_append, cString, if_neg (Ne.symm terminated.1), ih terminated.2]
      rfl

/-- The parser resolves the directory record that lies behind the header. -/
theorem dfidNamePath_encode (kernel : Kernel) (calls : Nat) {record : DfidNameRecord}
    {fileHandle : Nat} (holds : Bytes.Holds memory fileHandle
      (encodeHandle record.handleType record.handle ++ (record.name ++ 0 :: record.padding))) :
    dfidNamePath kernel memory calls fileHandle = .ok (resolve kernel calls record) := by
  obtain ⟨size, kind, data⟩ := read_handle holds.left record.handle_lt
  obtain ⟨after, named⟩ := holds.right.drop
  rw [length_encodeHandle, ← Nat.add_assoc] at named
  rw [dfidNamePath, size]
  simp only [kind, data, named, List.append_assoc, List.cons_append,
    cString_terminated record.terminated, resolve]
  cases kernel.openByHandleAt calls record.handleType.toNat record.handle <;> rfl

theorem nextInfo_eq {infoType length : Nat}
    (holds : Bytes.Holds memory infoFd (encodeHeader infoType length)) (fits : length < 256 ^ 2) :
    nextInfo memory outer metadata infoFd fullPath =
      .next (.info outer metadata (infoFd + length) fullPath) := by
  rw [nextInfo, readNat_infoLength holds fits]

/-- A record of the object is passed over. -/
theorem turn_fid {record : FidRecord} (holds : Bytes.Holds memory infoFd record.encode)
    (inside : infoFd < outer.metadataItor + metadata.eventLen) :
    turn kernel comparePath memory (.info outer metadata infoFd fullPath) =
      .next (.info outer metadata (infoFd + record.size) fullPath) := by
  have header := holds.left
  rw [turn, if_pos inside, readNat_infoType header (by decide)]
  change (if infoTypeFid = infoTypeDfidName then _ else _) = _
  rw [if_neg (by decide), nextInfo_eq header record.size_lt]

theorem through_encodeFid {fid : Option FidRecord} {high : Nat}
    (holds : Bytes.Holds memory infoFd (KernelEvent.encodeFid fid))
    (inside : infoFd + (KernelEvent.encodeFid fid).length ≤ outer.metadataItor + metadata.eventLen)
    (room : outer.metadataItor + metadata.eventLen ≤ high) (mapped : high ≤ memory.length) :
    PassesThrough (turn kernel comparePath memory) (LoadsBelow kernel comparePath memory high)
      (.info outer metadata infoFd fullPath)
      (.info outer metadata (infoFd + (KernelEvent.encodeFid fid).length) fullPath) := by
  cases fid with
  | none => exact PassesThrough.refl _ _ _
  | some record =>
      have length : (KernelEvent.encodeFid (some record)).length = record.size :=
        record.length_encode
      rw [length] at inside ⊢
      have positive := record.header_lt_size
      have before : infoFd < outer.metadataItor + metadata.eventLen := by omega
      apply PassesThrough.step
      · exact loadsBelow_fid kernel comparePath fullPath holds before (inside.trans room) mapped
      · exact turn_fid holds before

/-- A directory record gives the path, or it ends the event without one. -/
theorem turn_dfidName {record : DfidNameRecord}
    (holds : Bytes.Holds memory infoFd record.encode)
    (inside : infoFd < outer.metadataItor + metadata.eventLen) :
    turn kernel comparePath memory (.info outer metadata infoFd fullPath) =
      match resolve kernel outer.calls record with
      | none =>
          .next (finishEvent comparePath { outer with calls := outer.calls + 1 } metadata none)
      | some path =>
          .next (.info { outer with calls := outer.calls + 1 } metadata (infoFd + record.size)
            (some path)) := by
  have header := holds.left
  have handle := holds.right.right
  rw [length_encodeHeader, Bytes.length_ofNat] at handle
  rw [turn, if_pos inside, readNat_infoType header (by decide)]
  change (if infoTypeDfidName = infoTypeDfidName then _ else _) = _
  rw [if_pos rfl, show infoFd + infoFidLen = infoFd + infoHeaderLen + 8 from rfl,
    dfidNamePath_encode kernel outer.calls handle]
  cases resolve kernel outer.calls record with
  | none => rfl
  | some path => exact nextInfo_eq header record.size_lt

/-- Behind its last record an event is finished. -/
theorem turn_behind (behind : outer.metadataItor + metadata.eventLen ≤ infoFd) :
    turn kernel comparePath memory (.info outer metadata infoFd fullPath) =
      .next (finishEvent comparePath outer metadata fullPath) := by
  rw [turn, if_neg (by omega)]

/-- The loop state behind an event. -/
def Outer.behind (kernel : Kernel) (comparePath : Bytes) (outer : Outer) (event : KernelEvent) :
    Outer :=
  ⟨outer.metadataItor + event.size, outer.buflen - event.size,
    outer.processed ++ [processEvent kernel comparePath outer.calls event], outer.calls + 1⟩

theorem turn_event {event : KernelEvent}
    (holds : Bytes.Holds memory outer.metadataItor event.encodeMetadata)
    (room : (event.size : Int) ≤ outer.buflen) :
    turn kernel comparePath memory (.event outer) =
      .next (.info outer event.metadata (outer.metadataItor + eventMetadataLen) none) := by
  have large := event.metadata_le_size
  have accepted : fanEventOk event.metadata outer.buflen = true := by
    simp only [fanEventOk, Bool.and_eq_true, decide_eq_true_eq]
    change (_ ∧ _ ≤ event.size) ∧ (event.size : Int) ≤ _
    omega
  rw [turn, event.readMetadata_encode holds]
  change (if fanEventOk event.metadata outer.buflen = true then _ else _) = _
  rw [if_pos accepted]
  rfl

/-- The parser processes an event that the buffer holds, loads from it only and goes on behind it. -/
theorem through_event {event : KernelEvent} {high : Nat}
    (holds : Bytes.Holds memory outer.metadataItor event.encode)
    (room : (event.size : Int) ≤ outer.buflen) (below : outer.metadataItor + event.size ≤ high)
    (mapped : high ≤ memory.length) :
    PassesThrough (turn kernel comparePath memory) (LoadsBelow kernel comparePath memory high)
      (.event outer) (.event (outer.behind kernel comparePath event)) := by
  have length := event.size_eq
  have positive := event.dfidName.header_lt_size
  have copied : outer.metadataItor + eventMetadataLen ≤ high := by omega
  have records := holds.right
  rw [event.length_encodeMetadata] at records
  have entered : PassesThrough (turn kernel comparePath memory)
      (LoadsBelow kernel comparePath memory high) (.event outer)
      (.info outer event.metadata (outer.metadataItor + eventMetadataLen) none) :=
    .step (loadsBelow_event kernel comparePath outer copied mapped) (turn_event holds.left room)
  have before : PassesThrough (turn kernel comparePath memory)
      (LoadsBelow kernel comparePath memory high) (.event outer) (.info outer event.metadata
      (outer.metadataItor + eventMetadataLen + (KernelEvent.encodeFid event.before).length) none) := by
    apply entered.trans
    apply through_encodeFid records.left _ below mapped
    change _ ≤ outer.metadataItor + event.size
    omega
  have inside : outer.metadataItor + eventMetadataLen +
      (KernelEvent.encodeFid event.before).length < outer.metadataItor + event.metadata.eventLen := by
    change _ < outer.metadataItor + event.size
    omega
  have loads : LoadsBelow kernel comparePath memory high (.info outer event.metadata
      (outer.metadataItor + eventMetadataLen + (KernelEvent.encodeFid event.before).length) none) := by
    apply loadsBelow_dfidName kernel comparePath none records.right.left inside _ _ mapped
    · omega
    · omega
  have named : turn kernel comparePath memory (.info outer event.metadata (outer.metadataItor +
      eventMetadataLen + (KernelEvent.encodeFid event.before).length) none) = _ :=
    turn_dfidName records.right.left inside
  have result : outer.behind kernel comparePath event = ⟨outer.metadataItor + event.size,
      outer.buflen - event.size, outer.processed ++ [processPath comparePath event.mask.toNat
        (resolve kernel outer.calls event.dfidName)], outer.calls + 1⟩ := rfl
  apply before.trans
  rw [result]
  cases resolved : resolve kernel outer.calls event.dfidName with
  | none =>
      rw [resolved] at named
      exact PassesThrough.step loads named
  | some path =>
      rw [resolved] at named
      have rest := records.right.right
      rw [event.dfidName.length_encode] at rest
      have behind : outer.metadataItor + event.metadata.eventLen ≤ outer.metadataItor +
          eventMetadataLen + (KernelEvent.encodeFid event.before).length + event.dfidName.size +
            (KernelEvent.encodeFid event.after).length := by
        change outer.metadataItor + event.size ≤ _
        omega
      apply (PassesThrough.step loads named).trans
      apply (through_encodeFid rest _ below mapped).trans
      · apply PassesThrough.step
        · exact loadsBelow_behind kernel comparePath (some path) behind copied mapped
        · exact turn_behind behind
      · change _ ≤ outer.metadataItor + event.size
        omega

/-- The loop state behind all events of a buffer. -/
theorem foldl_behind (outer : Outer) (events : List KernelEvent) :
    events.foldl (Outer.behind kernel comparePath) outer =
      ⟨outer.metadataItor + (encodeEvents events).length,
        outer.buflen - (encodeEvents events).length,
        outer.processed ++ processEvents kernel comparePath outer.calls events,
        outer.calls + events.length⟩ := by
  induction events generalizing outer with
  | nil => simp [encodeEvents, processEvents]
  | cons event others ih =>
      rw [List.foldl_cons, ih, length_encodeEvents_cons]
      simp only [Outer.behind, processEvents, List.append_assoc, List.singleton_append,
        List.length_cons, Outer.mk.injEq]
      refine ⟨?_, ?_, trivial, ?_⟩ <;> omega

/-- The parser processes all events of the buffer in their order and loads from them only. -/
theorem through_events {events : List KernelEvent} {high : Nat}
    (holds : Bytes.Holds memory outer.metadataItor (encodeEvents events))
    (room : ((encodeEvents events).length : Int) ≤ outer.buflen)
    (below : outer.metadataItor + (encodeEvents events).length ≤ high) (mapped : high ≤ memory.length) :
    PassesThrough (turn kernel comparePath memory) (LoadsBelow kernel comparePath memory high)
      (.event outer) (.event (events.foldl (Outer.behind kernel comparePath) outer)) := by
  induction events generalizing outer with
  | nil => exact PassesThrough.refl _ _ _
  | cons event others ih =>
      rw [length_encodeEvents_cons] at room below
      push_cast at room
      have rest := holds.right
      rw [event.length_encode] at rest
      apply (through_event holds.left (by omega) (by omega) mapped).trans
      apply ih rest
      · change _ ≤ outer.buflen - event.size
        omega
      · change outer.metadataItor + event.size + _ ≤ high
        omega

/-- With less than a header left the parser returns what it has processed. -/
theorem turn_end (copied : outer.metadataItor + eventMetadataLen ≤ memory.length)
    (few : outer.buflen < eventMetadataLen) :
    turn kernel comparePath memory (.event outer) = .stop (.ok (.finished outer.processed)) := by
  rw [turn, readMetadata, Bytes.read, if_pos copied]
  simp only [Option.map_some, fanEventOk, decide_eq_false (Int.not_le.mpr few), Bool.false_and,
    Bool.false_eq_true, if_false]

/-- A call on a read of whole events processes each of them once, in order. -/
theorem onFsEvent_events_iff (kernel : Kernel) (comparePath : Bytes) (stack : Stack)
    {events : List KernelEvent} (fits : (encodeEvents events).length ≤ bufferSize)
    (outcome : Outcome) :
    OnFsEvent kernel comparePath stack (some (encodeEvents events)) outcome ↔
      outcome = .ok (.finished (processEvents kernel comparePath 0 events)) := by
  have behind := stack.behind
  have holds : Bytes.Holds (fill stack (some (encodeEvents events))) 0 (encodeEvents events) :=
    ⟨[], _, rfl, rfl⟩
  apply Gives.iff_eq
  apply (through_events holds (Int.le_refl _) holds.bound (Nat.le_refl _)).passes.gives_iff.mpr
  apply gives_of_stop
  rw [foldl_behind, turn_end]
  · rfl
  · simp only [fill, List.length_append, List.length_drop]
    omega
  · simp [buflen, eventMetadataLen]

/-- A call on a failed read processes nothing. -/
theorem onFsEvent_failed_iff (kernel : Kernel) (comparePath : Bytes) (stack : Stack)
    (outcome : Outcome) :
    OnFsEvent kernel comparePath stack none outcome ↔ outcome = .ok (.finished []) := by
  have behind := stack.behind
  apply Gives.iff_eq
  apply gives_of_stop
  apply turn_end
  · change 0 + eventMetadataLen ≤ stack.bytes.length
    omega
  · decide

end ClamavDbscan.Watcher
