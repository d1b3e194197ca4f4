import ClamavDbscan.Construction.FSWatcher.ParseEventBuffer
import ClamavDbscan.Proof.Fanotify.Encoding

/-
This file proves that the event parser of the Go watcher undoes the encoding of the kernel.
-/

namespace ClamavDbscan.FSWatcher

open Fanotify Iteration

/-- The system calls resolve a handle to its directory, or the handle is stale or too large. -/
def Kernel.Resolves (kernel : Kernel) (directories : Directories) : Prop :=
  ∀ call handleType handle,
    match directories call handleType handle with
    | some dirpath => ∃ fd, kernel.openByHandleAt call handleType handle = .ok fd ∧
        kernel.readlink call fd = .ok dirpath
    | none => ∃ errno, kernel.openByHandleAt call handleType handle = .error errno ∧
        (errno = estale ∨ errno = enomem)

/-- The system calls for the directory of an event give this record, which is empty after a failure
other than a stale handle or one that cannot be allocated. -/
def Kernel.parsed (kernel : Kernel) (call : Nat) (event : KernelEvent) : ParsedName :=
  match kernel.openByHandleAt call event.dfidName.handleType.toNat event.dfidName.handle with
  | .error errno =>
      if errno = estale ∨ errno = enomem then ⟨none, event.dfidName.name⟩ else .none
  | .ok fd =>
      match kernel.readlink call fd with
      | .error _ => .none
      | .ok link => ⟨some link, event.dfidName.name⟩

/-- The watcher sees these fields of an event. -/
def eventOf (directories : Directories) (call : Nat) (event : KernelEvent) : Event :=
  ⟨directories.dirpath call event, event.dfidName.name, event.mask.toNat⟩

/-- Each event opens one handle. -/
def eventsOf (directories : Directories) : (call : Nat) → List KernelEvent → List Event
  | _, [] => []
  | call, event :: others =>
      eventOf directories call event :: eventsOf directories (call + 1) others

/-- The watcher has marked at least one bit of the mask, and the queue has not overflowed. -/
def Marked (event : KernelEvent) : Prop :=
  (∃ bit ∈ markedBits, event.mask.toNat &&& bit ≠ 0) ∧ event.mask.toNat &&& fanQOverflow = 0

variable {kernel : Kernel} {directories : Directories} {filter : Filter} {memory : Bytes}
  {outer : Outer} {metadata : Metadata} {infoItor : Nat} {left : Int} {parsed : ParsedName}

/-- A set bit of the table gives its name. -/
theorem mem_names {table : List (Nat × String)} {entry : Nat × String} {mask : Nat}
    (listed : entry ∈ table) (set : mask &&& entry.1 ≠ 0) :
    entry.2 ∈ (table.filter fun entry => mask &&& entry.1 != 0).map Prod.snd := by
  apply List.mem_map_of_mem
  exact List.mem_filter.mpr ⟨listed, by simpa using set⟩

theorem parseEventMask_marked {mask bit : Nat} (member : bit ∈ markedBits)
    (set : mask &&& bit ≠ 0) : parseEventMask mask ≠ none := by
  have known : ∀ bit ∈ markedBits, ∃ entry ∈ maskNames, entry.1 = bit := by decide
  obtain ⟨entry, listed, rfl⟩ := known bit member
  have found := mem_names listed set
  intro missing
  simp only [parseEventMask, ite_eq_left_iff, reduceCtorEq, imp_false, not_not,
    List.isEmpty_iff] at missing
  rw [missing] at found
  contradiction

/-- The name ends at its terminator. -/
theorem scanName_terminated {name rest : Bytes} {start length : Nat} (terminated : 0 ∉ name)
    (holds : Bytes.Holds memory start (name ++ 0 :: rest)) (room : name.length < length) :
    scanName memory start length = some name := by
  induction name generalizing start length with
  | nil =>
      obtain ⟨length, rfl⟩ := Nat.exists_eq_succ_of_ne_zero (Nat.pos_iff_ne_zero.mp room)
      rw [scanName, holds.readNat_one]
      rfl
  | cons byte others ih =>
      rw [List.mem_cons, not_or] at terminated
      obtain ⟨length, rfl⟩ : ∃ shorter, length = shorter + 1 := ⟨length - 1, by simp at room; omega⟩
      have nonzero : byte.toNat ≠ 0 := by
        intro zero
        exact terminated.1 (UInt8.toNat_inj.mp zero.symm)
      have rest := ih terminated.2 holds.tail (by simpa using room)
      rw [scanName, holds.readNat_one]
      split
      · contradiction
      · rename_i same
        exact absurd (Option.some.inj same) nonzero
      · rename_i number _ same
        rw [rest, ← Option.some.inj same]
        simp

/-- The slice behind the identifier holds the handle, the name and its padding. -/
theorem newFileHandle_encode {handleType : UInt32} {handle behind : Bytes} {start : Nat}
    (holds : Bytes.Holds memory start (encodeHandle handleType handle))
    (fits : handle.length < 256 ^ 4) :
    newFileHandle memory start (fileHandleLen + handle.length + behind.length) =
      .ok (some ⟨handleType.toNat, handle, start + fileHandleLen + handle.length,
        behind.length⟩) := by
  obtain ⟨size, kind, data⟩ := read_handle holds fits
  rw [newFileHandle, if_neg (by omega), size]
  dsimp only
  rw [if_neg (by omega), kind, data]
  dsimp only
  rw [Nat.add_sub_cancel_left]

/-- A record that is not empty has the name of the event. -/
theorem Kernel.parsed_cases (kernel : Kernel) (call : Nat) (event : KernelEvent) :
    kernel.parsed call event = .none ∨
      ∃ dirpath, kernel.parsed call event = ⟨dirpath, event.dfidName.name⟩ := by
  unfold Kernel.parsed
  split
  · split
    · exact .inr ⟨_, rfl⟩
    · exact .inl rfl
  · split
    · exact .inl rfl
    · exact .inr ⟨_, rfl⟩

theorem Kernel.Resolves.parsed_eq (resolves : kernel.Resolves directories) (call : Nat)
    (event : KernelEvent) :
    kernel.parsed call event = ⟨directories.dirpath call event, event.dfidName.name⟩ := by
  have resolved := resolves call event.dfidName.handleType.toNat event.dfidName.handle
  rw [Directories.dirpath, Kernel.parsed]
  cases found : directories call event.dfidName.handleType.toNat event.dfidName.handle with
  | none =>
      rw [found] at resolved
      obtain ⟨errno, failed, known⟩ := resolved
      rw [failed]
      exact if_pos known
  | some dirpath =>
      rw [found] at resolved
      obtain ⟨fd, opened, linked⟩ := resolved
      rw [opened]
      dsimp only
      rw [linked]

/-- A record of a directory gives the directory and the name in it. -/
theorem parseDfidName_encode (kernel : Kernel) (calls : Nat) {event : KernelEvent} {data : Nat}
    (holds : Bytes.Holds memory data event.dfidName.encode) :
    parseDfidName kernel memory calls data event.dfidName.size =
      .ok (kernel.parsed calls event, calls + 1) := by
  have slice := holds.right.right
  rw [length_encodeHeader, Bytes.length_ofNat] at slice
  change Bytes.Holds memory (data + infoFidLen) _ at slice
  have behind : event.dfidName.size - infoFidLen = fileHandleLen + event.dfidName.handle.length +
      (event.dfidName.name ++ 0 :: event.dfidName.padding).length := by
    have whole := event.dfidName.length_encode
    simp only [DfidNameRecord.encode, List.length_append, length_encodeHeader, Bytes.length_ofNat,
      length_encodeHandle, infoHeaderLen, infoFidLen] at whole ⊢
    omega
  have named := slice.right
  rw [length_encodeHandle, ← Nat.add_assoc] at named
  have scanned : scanName memory (data + infoFidLen + fileHandleLen + event.dfidName.handle.length)
      (event.dfidName.name ++ 0 :: event.dfidName.padding).length = some event.dfidName.name :=
    scanName_terminated event.dfidName.terminated named (by simp)
  rw [parseDfidName, if_neg (by simp only [infoFidLen, fileHandleLen] at behind ⊢; omega), behind,
    newFileHandle_encode slice.left event.dfidName.handle_lt]
  dsimp only
  rw [scanned]
  dsimp only
  rw [if_neg (by simp)]
  rw [Kernel.parsed]
  cases kernel.openByHandleAt calls event.dfidName.handleType.toNat event.dfidName.handle with
  | error errno =>
      dsimp only
      split <;> rfl
  | ok fd =>
      dsimp only
      cases kernel.readlink calls fd <;> rfl

/-- Behind a record the inner loop goes on, or it finishes the event. -/
def behindRecord (filter : Filter) (outer : Outer) (metadata : Metadata) (infoItor : Nat)
    (left : Int) (parsed : ParsedName) : Turn Config Outcome :=
  if infoHeaderLen < asUintptr left then .next (.info outer metadata infoItor left parsed)
  else finishEvent filter outer metadata parsed

/-- A record of the object keeps the name. -/
theorem turn_fid {record : FidRecord} (holds : Bytes.Holds memory infoItor record.encode)
    (nonempty : left ≠ 0) :
    turn filter kernel memory (.info outer metadata infoItor left parsed) =
      behindRecord filter outer metadata (infoItor + record.size) (left - record.size) parsed := by
  have header := holds.left
  have processed : processEventInfo kernel memory outer.calls infoItor left =
      .ok ⟨.none, if infoHeaderLen < asUintptr (left - record.size) then
        some (infoItor + record.size) else none, left - record.size, outer.calls⟩ := by
    rw [processEventInfo, if_neg nonempty, readNat_infoType header (by decide),
      readNat_infoLength header record.size_lt]
    rfl
  rw [turn, processed, behindRecord]
  by_cases more : infoHeaderLen < asUintptr (left - record.size)
  · simp only [if_pos more, ParsedName.none, if_true]
  · simp only [if_neg more, ParsedName.none, if_true]

/-- The first record of a directory gives the name of the event. -/
theorem turn_dfidName {event : KernelEvent} (holds : Bytes.Holds memory infoItor event.dfidName.encode)
    (nonempty : left ≠ 0) :
    turn filter kernel memory (.info outer metadata infoItor left .none) =
      behindRecord filter { outer with calls := outer.calls + 1 } metadata
        (infoItor + event.dfidName.size) (left - event.dfidName.size)
        (kernel.parsed outer.calls event) := by
  have header := holds.left
  have processed : processEventInfo kernel memory outer.calls infoItor left =
      .ok ⟨kernel.parsed outer.calls event,
        if infoHeaderLen < asUintptr (left - event.dfidName.size) then
          some (infoItor + event.dfidName.size) else none,
        left - event.dfidName.size, outer.calls + 1⟩ := by
    rw [processEventInfo, if_neg nonempty, readNat_infoType header (by decide),
      readNat_infoLength header event.dfidName.size_lt]
    change Except.map _ (if infoTypeDfidName = infoTypeDfidName then _ else _) = _
    rw [if_pos rfl, parseDfidName_encode kernel outer.calls holds]
    rfl
  have named : (if (kernel.parsed outer.calls event).filename = [] then .none
      else kernel.parsed outer.calls event) = kernel.parsed outer.calls event := by
    rcases kernel.parsed_cases outer.calls event with empty | ⟨dirpath, found⟩
    · rw [empty]
      rfl
    · rw [found, if_neg event.dfidName.named]
  rw [turn, processed, behindRecord]
  by_cases more : infoHeaderLen < asUintptr (left - event.dfidName.size)
  · simp only [if_pos more, named]
  · simp only [if_neg more, named]

/-- The outer loop enters the records of an event that is not an overflow. -/
theorem turn_encodeMetadata {event : KernelEvent}
    (holds : Bytes.Holds memory outer.metadataItor event.encodeMetadata)
    (noOverflow : event.mask.toNat &&& fanQOverflow = 0) {n : Nat} (length : outer.n = n)
    (room : event.size ≤ n) (small : n < 2 ^ 31) :
    turn filter kernel memory (.event outer) =
      behindRecord filter outer event.metadata (outer.metadataItor + eventMetadataLen)
        (event.size - eventMetadataLen) .none := by
  have large := event.metadata_le_size
  have found := event.readMetadata_encode holds
  have accepted : fanEventOk memory outer.metadataItor outer.n = some true := by
    have size : Bytes.readNat memory outer.metadataItor 4 = some event.size :=
      readMetadata_eventLen found
    rw [fanEventOk, length, asUintptr_natCast (by omega), asUint32_natCast (by omega),
      if_neg (by omega), size]
    simp [large, room]
  rw [turn, accepted]
  dsimp only
  rw [found]
  dsimp only
  rw [if_neg (by simp [KernelEvent.metadata]), if_neg (by simpa [KernelEvent.metadata] using noOverflow)]
  rfl

/-- With bytes left the inner loop goes on. -/
theorem behindRecord_more {rest : Nat} (length : left = rest) (more : infoHeaderLen < rest)
    (fits : rest < 2 ^ 64) :
    behindRecord filter outer metadata infoItor left parsed =
      .next (.info outer metadata infoItor left parsed) := by
  rw [behindRecord, if_pos]
  rwa [length, asUintptr_natCast fits]

theorem behindRecord_last (length : left = 0) :
    behindRecord filter outer metadata infoItor left parsed =
      finishEvent filter outer metadata parsed := by
  rw [behindRecord, if_neg]
  rw [length]
  decide

/-- The inner loop reaches the record of the directory with the rest of the event left. -/
theorem passes_dfidName {event : KernelEvent}
    (holds : Bytes.Holds memory outer.metadataItor event.encode)
    (noOverflow : event.mask.toNat &&& fanQOverflow = 0) {n : Nat} (length : outer.n = n)
    (room : event.size ≤ n) (small : n < 2 ^ 31) :
    Passes (turn filter kernel memory) (.event outer) (.info outer event.metadata
      (outer.metadataItor + eventMetadataLen + (KernelEvent.encodeFid event.before).length)
      (event.dfidName.size + (KernelEvent.encodeFid event.after).length : Nat) .none) := by
  have total := event.size_eq
  have positive := event.dfidName.header_lt_size
  have records := holds.right
  rw [event.length_encodeMetadata] at records
  have entered : turn filter kernel memory (.event outer) = .next (.info outer event.metadata
      (outer.metadataItor + eventMetadataLen) (event.size - eventMetadataLen) .none) := by
    rw [turn_encodeMetadata holds.left noOverflow length room small]
    have left : (event.size : Int) - eventMetadataLen = (event.size - eventMetadataLen : Nat) := by
      omega
    exact behindRecord_more left (by omega) (by omega)
  apply (Passes.step entered).trans
  cases before : event.before with
  | none =>
      have left : (event.size : Int) - eventMetadataLen =
          (event.dfidName.size + (KernelEvent.encodeFid event.after).length : Nat) := by
        rw [before] at total
        change event.size = eventMetadataLen + 0 + _ + _ at total
        omega
      rw [left]
      exact Passes.refl _ _
  | some record =>
      have encoded : (KernelEvent.encodeFid (some record)).length = record.size :=
        record.length_encode
      rw [before, encoded] at total
      have fid := records.left
      rw [before] at fid
      have left : (event.size : Int) - eventMetadataLen - record.size =
          (event.dfidName.size + (KernelEvent.encodeFid event.after).length : Nat) := by
        omega
      apply Passes.step
      rw [turn_fid fid (by omega), left, encoded]
      exact behindRecord_more rfl (by omega) (by omega)

/-- The records of an event lead to its end with the directory and the name. -/
theorem passes_records (filter : Filter) (kernel : Kernel) {event : KernelEvent}
    (holds : Bytes.Holds memory outer.metadataItor event.encode)
    (noOverflow : event.mask.toNat &&& fanQOverflow = 0) {n : Nat} (length : outer.n = n)
    (room : event.size ≤ n) (small : n < 2 ^ 31) :
    ∃ config, Passes (turn filter kernel memory) (.event outer) config ∧
      turn filter kernel memory config = finishEvent filter { outer with calls := outer.calls + 1 }
        event.metadata (kernel.parsed outer.calls event) := by
  have entered : Passes (turn filter kernel memory) (.event outer) _ :=
    passes_dfidName holds noOverflow length room small
  have positive := event.dfidName.header_lt_size
  have records := holds.right
  rw [event.length_encodeMetadata] at records
  have named : turn filter kernel memory (.info outer event.metadata (outer.metadataItor +
      eventMetadataLen + (KernelEvent.encodeFid event.before).length)
      (event.dfidName.size + (KernelEvent.encodeFid event.after).length : Nat) .none) = _ :=
    turn_dfidName records.right.left (by omega)
  have total := event.size_eq
  cases after : event.after with
  | none =>
      rw [after] at entered named
      refine ⟨_, entered, named.trans (behindRecord_last ?_)⟩
      simp [KernelEvent.encodeFid]
  | some record =>
      have encoded : (KernelEvent.encodeFid (some record)).length = record.size :=
        record.length_encode
      rw [after, encoded] at entered named total
      have fid := records.right.right
      rw [after, event.dfidName.length_encode] at fid
      have left : ((event.dfidName.size + record.size : Nat) : Int) - event.dfidName.size =
          record.size := by omega
      rw [left, behindRecord_more rfl record.header_lt_size (by omega)] at named
      refine ⟨_, entered.trans (Passes.step named), ?_⟩
      have behind := record.header_lt_size
      rw [turn_fid fid (by omega)]
      exact behindRecord_last (Int.sub_self _)

/-- An event whose directory is allowed is reported. -/
def reported (filter : Filter) (events : List Event) : List Event :=
  events.filter fun event => filter.allowPath event.dirpath

/-- The end of the last event ends the parser, and every other one leads to the next event. -/
theorem finishEvent_eq {event : KernelEvent} {dirpath : Option Bytes}
    (marked : ∃ bit ∈ markedBits, event.mask.toNat &&& bit ≠ 0) {rest : Nat}
    (length : outer.n = (event.size + rest : Nat)) :
    finishEvent filter outer event.metadata ⟨dirpath, event.dfidName.name⟩ =
      if rest = 0 then
        .stop (.ok (outer.results ++ reported filter [⟨dirpath, event.dfidName.name, event.mask.toNat⟩]))
      else .next (.event ⟨outer.metadataItor + event.size, rest,
        outer.results ++ reported filter [⟨dirpath, event.dfidName.name, event.mask.toNat⟩], outer.calls⟩) := by
  obtain ⟨bit, member, set⟩ := marked
  have names : parseEventMask event.metadata.mask ≠ none := parseEventMask_marked member set
  have left : outer.n - (event.metadata.eventLen : Int) = rest := by
    rw [length]
    change ((event.size + rest : Nat) : Int) - event.size = rest
    omega
  have results : (if filter.allowPath dirpath then
      outer.results ++ [⟨dirpath, event.dfidName.name, event.metadata.mask⟩] else outer.results) =
      outer.results ++ reported filter [⟨dirpath, event.dfidName.name, event.mask.toNat⟩] := by
    cases allowed : filter.allowPath dirpath <;> simp [reported, allowed, KernelEvent.metadata]
  rw [finishEvent, if_neg event.dfidName.named, if_neg (fun both => names both.2)]
  dsimp only
  rw [left, results, if_neg (by omega)]
  simp only [Int.natCast_eq_zero]
  rfl

/-- The parser goes through the events until a record gives no name. -/
def outcomeOf (filter : Filter) (kernel : Kernel) : (call : Nat) → (results : List Event) →
    List KernelEvent → Outcome
  | _, results, [] => .ok results
  | call, results, event :: others =>
      let parsed := kernel.parsed call event
      if parsed.filename = [] then .error .noFilepath
      else outcomeOf filter kernel (call + 1)
        (results ++ reported filter [⟨parsed.dirpath, parsed.filename, event.mask.toNat⟩]) others

/-- The parser has the outcome that the system calls determine. -/
theorem gives_outcome (filter : Filter) (kernel : Kernel) {events : List KernelEvent}
    (nonempty : events ≠ []) (marked : ∀ event ∈ events, Marked event)
    (holds : Bytes.Holds memory outer.metadataItor (encodeEvents events))
    (length : outer.n = (encodeEvents events).length)
    (small : (encodeEvents events).length < 2 ^ 31) :
    Gives (turn filter kernel memory) (.event outer)
      (outcomeOf filter kernel outer.calls outer.results events) := by
  induction events generalizing outer with
  | nil => contradiction
  | cons event others ih =>
      have here := marked event List.mem_cons_self
      rw [length_encodeEvents_cons] at length small
      have rest := holds.right
      rw [event.length_encode] at rest
      obtain ⟨config, passed, finished⟩ := passes_records filter kernel holds.left
        here.2 length (by omega) small
      apply passed.gives_iff.mpr
      rw [outcomeOf]
      rcases kernel.parsed_cases outer.calls event with empty | ⟨dirpath, found⟩
      · rw [empty] at finished ⊢
        exact gives_of_stop finished
      · have counted : { outer with calls := outer.calls + 1 : Outer }.n =
            (event.size + (encodeEvents others).length : Nat) := length
        rw [found, finishEvent_eq here.1 counted] at finished
        rw [found, if_neg event.dfidName.named]
        cases others with
        | nil =>
            rw [outcomeOf]
            exact gives_of_stop finished
        | cons next others =>
            have more : (encodeEvents (next :: others)).length ≠ 0 := by
              have large := next.metadata_le_size
              rw [length_encodeEvents_cons]
              simp only [eventMetadataLen] at large
              omega
            rw [if_neg more] at finished
            apply (Passes.step finished).gives_iff.mpr
            exact ih (List.cons_ne_nil _ _)
              (fun later member => marked later (List.mem_cons_of_mem _ member)) rest rfl (by omega)

theorem parse_outcome (filter : Filter) (kernel : Kernel) {events : List KernelEvent}
    (nonempty : events ≠ []) (marked : ∀ event ∈ events, Marked event)
    (small : (encodeEvents events).length < 2 ^ 31) (beyond : Bytes) :
    Gives (turn filter kernel (encodeEvents events ++ beyond)) (start (encodeEvents events))
      (outcomeOf filter kernel 0 [] events) :=
  gives_outcome filter kernel nonempty marked ⟨[], beyond, rfl, rfl⟩ rfl small

/-- If all handles resolve, the parser returns the events of the buffer in their order. -/
theorem outcomeOf_resolves (filter : Filter) (resolves : kernel.Resolves directories)
    (events : List KernelEvent) (call : Nat) (results : List Event) :
    outcomeOf filter kernel call results events =
      .ok (results ++ reported filter (eventsOf directories call events)) := by
  induction events generalizing call results with
  | nil => simp [outcomeOf, eventsOf, reported]
  | cons event others ih =>
      rw [outcomeOf, resolves.parsed_eq, if_neg event.dfidName.named, ih, List.append_assoc]
      congr 2
      rw [reported, reported, reported, ← List.filter_append]
      rfl

/-- The parser undoes the encoding: it returns each event with an allowed directory once. -/
theorem parse_encodeEvents_iff (filter : Filter) (kernel : Kernel) (directories : Directories)
    (resolves : kernel.Resolves directories) (events : List KernelEvent) (nonempty : events ≠ [])
    (marked : ∀ event ∈ events, Marked event) (small : (encodeEvents events).length < 2 ^ 31)
    (beyond : Bytes) (outcome : Outcome) :
    Gives (turn filter kernel (encodeEvents events ++ beyond)) (start (encodeEvents events))
      outcome ↔ outcome = .ok (reported filter (eventsOf directories 0 events)) := by
  have given := parse_outcome filter kernel nonempty marked small beyond
  rw [outcomeOf_resolves filter resolves] at given
  exact Gives.iff_eq given

theorem parse_closedFile :
    Gives (turn ⟨[0x2f, 0x77], [0x2f, 0x77, 0x2f], true⟩
      ⟨fun _ _ _ => .ok 7, fun _ _ => .ok [0x2f, 0x77]⟩ (encodeEvents [closedFile] ++ []))
      (start (encodeEvents [closedFile])) (.ok [⟨some [0x2f, 0x77], [0x61], 0x8⟩]) := by
  apply (parse_encodeEvents_iff _ _ (fun _ _ _ => some [0x2f, 0x77]) _ [closedFile] _ _ _ [] _).mpr
  · decide
  · intro call handleType handle
    exact ⟨7, rfl, rfl⟩
  · decide
  · intro event member
    rw [List.mem_singleton.mp member]
    exact ⟨⟨fanCloseWrite, by decide, by decide⟩, by decide⟩
  · decide +kernel

end ClamavDbscan.FSWatcher
