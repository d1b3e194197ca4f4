import ClamavDbscan.Construction.FSWatcher.ParseEventBuffer
import ClamavDbscan.Proof.Fanotify.Encoding

/-
This file decides when the event parser of the Go watcher stops.
-/

namespace ClamavDbscan.FSWatcher

open Fanotify Iteration

variable {filter : Filter} {kernel : Kernel} {memory : Bytes}

/-- An overflow event is tested again, and so is a record of length zero. -/
def Stalls (memory : Bytes) : Config → Prop
  | .event outer => fanEventOk memory outer.metadataItor outer.n = some true ∧
      ∃ metadata, readMetadata memory outer.metadataItor = some metadata ∧
        metadata.vers = metadataVersion ∧ metadata.mask &&& fanQOverflow ≠ 0
  | .info _ _ infoItor left _ =>
      Bytes.readNat memory (infoItor + 2) 2 = some 0 ∧ infoHeaderLen < asUintptr left

/-- A record that can be read has a readable type. -/
theorem readNat_type {infoItor length : Nat}
    (found : Bytes.readNat memory (infoItor + 2) 2 = some length) :
    ∃ infoType, Bytes.readNat memory infoItor 1 = some infoType := by
  have inside := Bytes.readNat_bound found
  have fits : infoItor + 1 ≤ memory.length := by omega
  simp [Bytes.readNat, Bytes.read, fits]

/-- A record of length zero is too short for a name, and it comes again. -/
theorem processEventInfo_empty {calls infoItor : Nat} {left : Int}
    (empty : Bytes.readNat memory (infoItor + 2) 2 = some 0)
    (more : infoHeaderLen < asUintptr left) :
    processEventInfo kernel memory calls infoItor left =
      .ok ⟨.none, some infoItor, left, calls⟩ := by
  obtain ⟨infoType, typed⟩ := readNat_type empty
  have nonzero : left ≠ 0 := by
    rintro rfl
    simp [asUintptr] at more
  have short : parseDfidName kernel memory calls infoItor 0 = .ok (.none, calls) := rfl
  unfold processEventInfo
  rw [if_neg nonzero, typed, empty]
  simp [short, more, Except.map]

/-- A stalled parser takes the same turn for ever. -/
theorem turn_stalled {config : Config} (stalled : Stalls memory config) :
    turn filter kernel memory config = .next config := by
  cases config with
  | event outer =>
      obtain ⟨accepted, metadata, found, version, overflow⟩ := stalled
      simp [turn, accepted, found, version, overflow]
  | info outer metadata infoItor left parsed =>
      simp [turn, processEventInfo_empty stalled.1 stalled.2, ParsedName.none]

/-- The next record lies behind the length of this one. -/
theorem processEventInfo_next {calls infoItor next : Nat} {left : Int} {record : ProcessedInfo}
    (processed : processEventInfo kernel memory calls infoItor left = .ok record)
    (goes : record.nextInfo = some next) :
    ∃ length, Bytes.readNat memory (infoItor + 2) 2 = some length ∧ next = infoItor + length ∧
      infoHeaderLen < asUintptr (left - length) := by
  unfold processEventInfo at processed
  split at processed
  · obtain rfl := Except.ok.inj processed
    contradiction
  · split at processed
    · rename_i infoType length _ sized
      refine ⟨length, sized, ?_⟩
      generalize (if infoType = infoTypeDfidName then
        parseDfidName kernel memory calls infoItor length else .ok (.none, calls)) = result
        at processed
      cases result with
      | error failure => contradiction
      | ok parsed =>
          obtain rfl := Except.ok.inj processed
          obtain ⟨more, same⟩ := Option.ite_none_right_eq_some.mp goes
          exact ⟨(Option.some.inj same).symm, more⟩
    · contradiction

/-- An event goes on behind itself. -/
theorem finishEvent_next {outer : Outer} {metadata : Metadata} {parsed : ParsedName}
    {after : Config} (goes : finishEvent filter outer metadata parsed = .next after) :
    parsed.filename ≠ [] ∧ ∃ results, after = .event ⟨outer.metadataItor + metadata.eventLen,
      outer.n - metadata.eventLen, results, outer.calls⟩ ∧ 0 < outer.n - metadata.eventLen := by
  unfold finishEvent at goes
  split at goes
  · contradiction
  · rename_i named
    split at goes
    · contradiction
    · dsimp only at goes
      split at goes
      · contradiction
      · split at goes
        · contradiction
        · obtain rfl := Turn.next.inj goes
          refine ⟨named, _, rfl, ?_⟩
          omega

/-- An event that is accepted has at least its metadata. -/
theorem eventLen_of_fanEventOk {itor : Nat} {n : Int} {metadata : Metadata}
    (accepted : fanEventOk memory itor n = some true)
    (found : readMetadata memory itor = some metadata) : eventMetadataLen ≤ metadata.eventLen := by
  unfold fanEventOk at accepted
  rw [readMetadata_eventLen found] at accepted
  split at accepted
  · contradiction
  · simp at accepted
    exact accepted.1

/-- The outer loop stalls, or it enters the records of an event. -/
theorem turn_event {outer : Outer} {after : Config}
    (goes : turn filter kernel memory (.event outer) = .next after) :
    Stalls memory (.event outer) ∨ ∃ metadata left parsed,
      after = .info outer metadata (outer.metadataItor + eventMetadataLen) left parsed ∧
        eventMetadataLen ≤ metadata.eventLen := by
  simp only [turn] at goes
  cases accepted : fanEventOk memory outer.metadataItor outer.n with
  | none => simp [accepted] at goes
  | some allowed =>
      cases allowed with
      | false => simp [accepted] at goes
      | true =>
          cases found : readMetadata memory outer.metadataItor with
          | none => simp [accepted, found] at goes
          | some metadata =>
              simp only [accepted, found] at goes
              split at goes
              · contradiction
              · rename_i version
                split at goes
                · rename_i overflow
                  exact .inl ⟨accepted, metadata, found, not_not.mp version, overflow⟩
                · split at goes
                  · right
                    exact ⟨metadata, _, _, (Turn.next.inj goes).symm,
                      eventLen_of_fanEventOk accepted found⟩
                  · exact absurd rfl (finishEvent_next goes).1

/-- The inner loop stalls, moves on to a later record, or leaves the event behind. -/
theorem turn_info {outer : Outer} {metadata : Metadata} {infoItor : Nat} {left : Int}
    {parsed : ParsedName} {after : Config}
    (goes : turn filter kernel memory (.info outer metadata infoItor left parsed) = .next after) :
    Stalls memory (.info outer metadata infoItor left parsed) ∨
      (∃ later next rest named, after = .info later metadata next rest named ∧
        later.n = outer.n ∧ infoItor < next ∧ infoItor < memory.length) ∨
      ∃ later, after = .event later ∧ later.n = outer.n - metadata.eventLen ∧ 0 < later.n := by
  simp only [turn] at goes
  cases processed : processEventInfo kernel memory outer.calls infoItor left with
  | error failure => simp [processed] at goes
  | ok record =>
      simp only [processed] at goes
      cases next : record.nextInfo with
      | none =>
          simp only [next] at goes
          obtain ⟨_, results, rfl, positive⟩ := finishEvent_next goes
          exact .inr (.inr ⟨_, rfl, rfl, positive⟩)
      | some nextItor =>
          simp only [next] at goes
          obtain rfl := Turn.next.inj goes
          obtain ⟨length, sized, rfl, more⟩ := processEventInfo_next processed next
          have inside := Bytes.readNat_bound sized
          cases length with
          | zero => exact .inl ⟨sized, by simpa using more⟩
          | succ length =>
              refine .inr (.inl ⟨_, _, _, _, rfl, rfl, ?_, ?_⟩)
              · omega
              · omega

/-- The rest of the buffer counts first, then the place in the memory. -/
def work (memory : Bytes) : Config → Nat
  | .event outer => outer.n.toNat * (memory.length + 2) + (memory.length + 1)
  | .info outer _ infoItor _ _ =>
      outer.n.toNat * (memory.length + 2) + (memory.length - infoItor)

/-- An event inside its records has at least its metadata. -/
def Sized : Config → Prop
  | .event _ => True
  | .info _ metadata _ _ _ => eventMetadataLen ≤ metadata.eventLen

/-- A turn that does not stall lowers the work. -/
theorem turn_progress {config after : Config} (sized : Sized config)
    (moves : ¬ Stalls memory config) (goes : turn filter kernel memory config = .next after) :
    Sized after ∧ work memory after < work memory config := by
  cases config with
  | event outer =>
      obtain ⟨metadata, left, parsed, rfl, long⟩ := (turn_event goes).resolve_left moves
      refine ⟨long, ?_⟩
      simp only [work]
      omega
  | info outer metadata infoItor left parsed =>
      cases (turn_info goes).resolve_left moves with
      | inl record =>
          obtain ⟨later, next, rest, named, rfl, same, further, inside⟩ := record
          refine ⟨sized, ?_⟩
          simp only [work, same]
          omega
      | inr event =>
          obtain ⟨later, rfl, same, positive⟩ := event
          refine ⟨trivial, ?_⟩
          have fewer : later.n.toNat + 1 ≤ outer.n.toNat := by
            change 24 ≤ metadata.eventLen at sized
            omega
          have product := Nat.mul_le_mul_right (memory.length + 2) fewer
          rw [Nat.add_mul] at product
          simp only [work]
          omega

/-- The parser stops exactly when it reaches no overflow event and no record of length zero. -/
theorem parse_halts_iff (filter : Filter) (kernel : Kernel) (first : UInt8) (rest beyond : Bytes) :
    Halts (turn filter kernel (first :: rest ++ beyond)) (start (first :: rest)) ↔
      ∀ config, Passes (turn filter kernel (first :: rest ++ beyond)) (start (first :: rest)) config →
        ¬ Stalls (first :: rest ++ beyond) config := by
  constructor
  · intro halts config passed stalled
    have again : turn filter kernel (first :: rest ++ beyond) config = .next config :=
      turn_stalled stalled
    have stays : ¬ Halts (turn filter kernel (first :: rest ++ beyond)) config := by
      apply not_halts_of_invariant (fun state => state = config) _ rfl
      rintro state rfl
      exact ⟨state, again, rfl⟩
    exact stays (passed.halts_iff.mp halts)
  · intro moves
    apply halts_of_measure (fun config => Sized config ∧
      Passes (turn filter kernel (first :: rest ++ beyond)) (start (first :: rest)) config)
      (work (first :: rest ++ beyond))
    · intro state after reached goes
      obtain ⟨sized, less⟩ := turn_progress reached.1 (moves state reached.2) goes
      exact ⟨⟨sized, reached.2.tail goes⟩, less⟩
    · exact ⟨trivial, Relation.ReflTransGen.refl⟩

/-- A buffer of complete events has the right length and version in each of them. -/
def CompleteEvents (buff : Bytes) : Prop :=
  ∃ events : List Bytes, buff = events.flatten ∧ ∀ event ∈ events,
    ∃ metadata, readMetadata event 0 = some metadata ∧ metadata.eventLen = event.length ∧
      metadata.vers = metadataVersion

/-- This event reports that the queue of the kernel has overflowed. -/
def overflowEvent : Bytes :=
  Bytes.ofNat 4 24 ++ Bytes.ofNat 1 3 ++ Bytes.ofNat 1 0 ++ Bytes.ofNat 2 24 ++
    Bytes.ofNat 8 fanQOverflow ++ Bytes.ofNat 4 fanNofd ++ Bytes.ofNat 4 0

/-- One overflow event keeps the parser in its outer loop for ever. -/
theorem overflow_never_halts : ¬ ∀ (filter : Filter) (kernel : Kernel) (buff beyond : Bytes),
    buff ≠ [] → CompleteEvents buff → Halts (turn filter kernel (buff ++ beyond)) (start buff) := by
  intro always
  have halts := always ⟨[], [], false⟩ ⟨fun _ _ _ => .error estale, fun _ _ => .error 0⟩
    overflowEvent [] (by decide)
    ⟨[overflowEvent], rfl, by
      intro event member
      rw [List.mem_singleton.mp member]
      exact ⟨⟨24, 3, fanQOverflow, fanNofd⟩, by decide, by decide, by decide⟩⟩
  revert halts
  apply not_halts_of_invariant (fun state => state = start overflowEvent) _ rfl
  rintro state rfl
  exact ⟨_, by decide +kernel, rfl⟩

end ClamavDbscan.FSWatcher
