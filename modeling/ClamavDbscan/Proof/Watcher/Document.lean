import ClamavDbscan.Proof.Watcher.Decode

/-
This file proves which document the C watcher queues for the events of the kernel.
-/

namespace ClamavDbscan.Watcher

open Fanotify Iteration

/-- The system calls resolve a handle to its directory, or the handle cannot be opened. -/
def Kernel.Resolves (kernel : Kernel) (directories : Directories) : Prop :=
  ∀ call handleType handle,
    match directories call handleType handle with
    | some dirpath => ∃ fd, kernel.openByHandleAt call handleType handle = some fd ∧
        kernel.safeReadlink call fd = some dirpath
    | none => kernel.openByHandleAt call handleType handle = none

/-- A mask with one marked bit has one operation. -/
def SingleChange (event : KernelEvent) : Prop :=
  ∃ operation, operationsOf event.mask.toNat = [operation]

def pathOf (dirpath : Bytes) (event : KernelEvent) : Bytes :=
  dirpath ++ slash :: event.dfidName.name

/-- The events that resolve to a path with the compare path before it stand here with it. -/
def accepted (comparePath : Bytes) (directories : Directories) : (call : Nat) →
    List KernelEvent → List (Bytes × KernelEvent)
  | _, [] => []
  | call, event :: others =>
      match directories.dirpath call event with
      | none => accepted comparePath directories (call + 1) others
      | some dirpath =>
          if comparePath <+: pathOf dirpath event then
            (pathOf dirpath event, event) :: accepted comparePath directories (call + 1) others
          else accepted comparePath directories (call + 1) others

/-- An accepted event gives a pair for each of its operations. -/
def documentOf (comparePath : Bytes) (directories : Directories) (events : List KernelEvent) :
    List JsonEvent :=
  (accepted comparePath directories 0 events).flatMap fun (path, event) =>
    (operationsOf event.mask.toNat).map fun operation => ⟨path, operation⟩

def Processed.event : Processed → Option JsonEvent
  | .reported event => some event
  | _ => none

variable {kernel : Kernel} {directories : Directories} {comparePath : Bytes}

/-- A processed list becomes a document if it reports an event. -/
theorem batch_finished (processed : List Processed) :
    (Handled.finished processed).batch =
      if processed.filterMap Processed.event = [] then .nothing
      else .document (processed.filterMap Processed.event) := by
  have same : (Handled.finished processed).batch =
      if (processed.filterMap Processed.event).isEmpty then .nothing
      else .document (processed.filterMap Processed.event) := rfl
  rw [same]
  simp only [List.isEmpty_iff]

theorem resolve_eq (resolves : kernel.Resolves directories) (call : Nat) (event : KernelEvent) :
    resolve kernel call event.dfidName =
      (directories.dirpath call event).map fun dirpath => pathOf dirpath event := by
  have resolved := resolves call event.dfidName.handleType.toNat event.dfidName.handle
  rw [resolve, Directories.dirpath]
  cases found : directories call event.dfidName.handleType.toNat event.dfidName.handle with
  | none =>
      rw [found] at resolved
      rw [resolved]
      rfl
  | some dirpath =>
      rw [found] at resolved
      obtain ⟨fd, opened, linked⟩ := resolved
      rw [opened, Option.map_some, linked]
      rfl

/-- The last test that succeeds is the only one for a single change. -/
theorem operationOfMask_single {mask : Nat} {operation : String}
    (single : operationsOf mask = [operation]) :
    operationTypeToString (operationOfMask mask) = operation := by
  revert single
  by_cases closed : mask &&& fanCloseWrite = 0 <;> by_cases deleted : mask &&& fanDelete = 0 <;>
    by_cases movedFrom : mask &&& fanMovedFrom = 0 <;> by_cases movedTo : mask &&& fanMovedTo = 0 <;>
      simp [operationsOf, operationNames, operationOfMask, operationTypeToString, closed, deleted,
        movedFrom, movedTo]

/-- The parser reports the accepted events with the operation that the tests of the mask leave. -/
theorem processEvents_accepted (resolves : kernel.Resolves directories) (call : Nat)
    (events : List KernelEvent) :
    (processEvents kernel comparePath call events).filterMap Processed.event =
      (accepted comparePath directories call events).map fun (path, event) =>
        ⟨path, operationTypeToString (operationOfMask event.mask.toNat)⟩ := by
  induction events generalizing call with
  | nil => rfl
  | cons event others ih =>
      rw [processEvents, processEvent, resolve_eq resolves, accepted]
      cases directories.dirpath call event with
      | none => exact ih (call + 1)
      | some dirpath =>
          rw [Option.map_some, processPath]
          dsimp only
          by_cases below : comparePath <+: pathOf dirpath event
          · rw [if_pos (List.isPrefixOf_iff_prefix.mpr below), if_pos below, List.map_cons, ← ih]
            rfl
          · rw [if_neg (fun starts => below (List.isPrefixOf_iff_prefix.mp starts)), if_neg below,
              ← ih]
            rfl

theorem accepted_subset {call : Nat} {events : List KernelEvent} {entry : Bytes × KernelEvent}
    (member : entry ∈ accepted comparePath directories call events) : entry.2 ∈ events := by
  induction events generalizing call with
  | nil => contradiction
  | cons event others ih =>
      rw [accepted] at member
      split at member
      · exact List.mem_cons_of_mem _ (ih member)
      · split at member
        · rcases List.mem_cons.mp member with rfl | later
          · exact List.mem_cons_self
          · exact List.mem_cons_of_mem _ (ih later)
        · exact List.mem_cons_of_mem _ (ih member)

/-- Single changes give one pair for each accepted event. -/
theorem processEvents_document (resolves : kernel.Resolves directories) {events : List KernelEvent}
    (single : ∀ event ∈ events, SingleChange event) :
    (processEvents kernel comparePath 0 events).filterMap Processed.event =
      documentOf comparePath directories events := by
  rw [processEvents_accepted resolves, documentOf, List.map_eq_flatMap]
  apply List.flatMap_congr
  intro (path, event) member
  obtain ⟨operation, named⟩ := single event (accepted_subset member)
  change [JsonEvent.mk path _] = (operationsOf event.mask.toNat).map _
  rw [operationOfMask_single named, named]
  rfl

/-- One call queues exactly one document with the pairs, or none if there is no pair. -/
theorem onFsEvent_queues (kernel : Kernel) (directories : Directories)
    (resolves : kernel.Resolves directories) (comparePath : Bytes) (stack : Stack)
    (events : List KernelEvent) (single : ∀ event ∈ events, SingleChange event)
    (fits : (encodeEvents events).length ≤ bufferSize) (loop : LoopState (List JsonEvent)) :
    ∃ handled, (∀ outcome, OnFsEvent kernel comparePath stack (some (encodeEvents events)) outcome ↔
        outcome = .ok handled) ∧
      (loop.onFsEvent handled.batch).jsonQueue = loop.jsonQueue ++
        if documentOf comparePath directories events = [] then []
        else [documentOf comparePath directories events] := by
  refine ⟨.finished (processEvents kernel comparePath 0 events),
    onFsEvent_events_iff kernel comparePath stack fits, ?_⟩
  rw [batch_finished, processEvents_document resolves single]
  by_cases empty : documentOf comparePath directories events = []
  · rw [if_pos empty, if_pos empty, List.append_nil]
    rfl
  · rw [if_neg empty, if_neg empty]
    rfl

theorem onFsEvent_queues_closedFile :
    ∃ handled, (∀ outcome, OnFsEvent ⟨fun _ _ _ => some 7, fun _ _ => some [0x2f, 0x77]⟩
        [0x2f, 0x77, 0x2f] ⟨List.replicate 280 0, by rw [List.length_replicate]; decide⟩
        (some (encodeEvents [closedFile])) outcome ↔ outcome = .ok handled) ∧
      (LoopState.initial.onFsEvent handled.batch).jsonQueue =
        [[⟨[0x2f, 0x77, 0x2f, 0x61], "close_for_write"⟩]] := by
  apply onFsEvent_queues _ (fun _ _ _ => some [0x2f, 0x77]) _ _ _ [closedFile] _ _ .initial
  · intro call handleType handle
    exact ⟨7, rfl, rfl⟩
  · intro event member
    rw [List.mem_singleton.mp member]
    exact ⟨"close_for_write", by decide⟩
  · decide

end ClamavDbscan.Watcher
