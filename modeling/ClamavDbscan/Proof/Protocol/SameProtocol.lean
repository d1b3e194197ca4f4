import ClamavDbscan.Construction.FSWatcher.MarshalJSON
import ClamavDbscan.Proof.FSWatcher.Decode
import ClamavDbscan.Proof.Watcher.Document

/-
This file decides when the C watcher and the Go watcher report the same pairs.
-/

namespace ClamavDbscan

open Fanotify Iteration

/-- The C watcher reports these pairs for the bytes of one read. -/
def Watcher.Reports (kernel : Watcher.Kernel) (root : Bytes) (stack : Watcher.Stack) (data : Bytes)
    (pairs : List (Bytes × String)) : Prop :=
  ∃ processed, Watcher.OnFsEvent kernel (Watcher.comparePathOf root) stack (some data)
      (.ok (.finished processed)) ∧
    pairs = (processed.filterMap Watcher.Processed.event).map fun event =>
      (event.path, event.operation)

/-- The Go watcher reports these pairs for the bytes of one read. -/
def FSWatcher.Reports (kernel : FSWatcher.Kernel) (root data beyond : Bytes)
    (pairs : List (Bytes × String)) : Prop :=
  ∃ events, FSWatcher.ReadEvents (.ofRoot root true) kernel data beyond (.ok events) ∧
    (events.getD []).mapM FSWatcher.Event.members = some pairs

/-- The two watchers report the same pairs. -/
def SameReports (watcher : Watcher.Kernel) (fsWatcher : FSWatcher.Kernel) (root : Bytes)
    (stack : Watcher.Stack) (data beyond : Bytes) : Prop :=
  ∃ pairs, Watcher.Reports watcher root stack data pairs ∧
    FSWatcher.Reports fsWatcher root data beyond pairs

variable {root : Bytes} {directories : Directories}

/-- A name without a slash lies below the root exactly if its directory is there. -/
theorem allowPath_iff (root dirpath : Bytes) {event : KernelEvent} (plain : slash ∉ event.dfidName.name) :
    (FSWatcher.Filter.ofRoot root true).allowPath (some dirpath) = true ↔
      root ++ [slash] <+: Watcher.pathOf dirpath event := by
  have unfolded : (FSWatcher.Filter.ofRoot root true).allowPath (some dirpath) = true ↔
      root ++ [slash] <+: dirpath ∨ dirpath = root := by
    simp [FSWatcher.Filter.allowPath, FSWatcher.Filter.ofRoot]
  rw [unfolded, Watcher.pathOf]
  constructor
  · rintro (below | rfl)
    · exact below.trans (List.prefix_append _ _)
    · exact ⟨event.dfidName.name, by simp⟩
  · rintro ⟨rest, same⟩
    rw [List.append_assoc, List.singleton_append] at same
    rcases List.append_eq_append_iff.mp same with ⟨more, inside, tail⟩ | ⟨more, inside, tail⟩
    · cases more with
      | nil => exact .inr (by simpa using inside)
      | cons byte more =>
          obtain ⟨first, _⟩ := List.cons_eq_cons.mp tail
          exact .inl ⟨more, by rw [inside, ← first]; simp⟩
    · cases more with
      | nil => exact .inr (by simpa using inside.symm)
      | cons byte more =>
          obtain ⟨_, named⟩ := List.cons_eq_cons.mp tail
          exact absurd (by rw [named]; simp) plain

/-- The C watcher names an accepted event by its bytes and the test that succeeds last. -/
def Watcher.pair (entry : Bytes × KernelEvent) : Bytes × String :=
  (entry.1, Watcher.operationTypeToString (Watcher.operationOfMask entry.2.mask.toNat))

/-- The Go watcher repairs the path and has one name for several changes. -/
def FSWatcher.pair (entry : Bytes × KernelEvent) : Bytes × String :=
  (Utf8.encode (Utf8.repair entry.1),
    (FSWatcher.parseEventMaskSimplified entry.2.mask.toNat).getD "")

/-- The operations agree exactly on single changes. -/
theorem operation_iff {event : KernelEvent} (marked : FSWatcher.Marked event) :
    Watcher.operationTypeToString (Watcher.operationOfMask event.mask.toNat) =
      (FSWatcher.parseEventMaskSimplified event.mask.toNat).getD "" ↔
        Watcher.SingleChange event := by
  obtain ⟨⟨bit, member, set⟩, _⟩ := marked
  have one_set : event.mask.toNat &&& fanCloseWrite ≠ 0 ∨ event.mask.toNat &&& fanDelete ≠ 0 ∨
      event.mask.toNat &&& fanMovedFrom ≠ 0 ∨ event.mask.toNat &&& fanMovedTo ≠ 0 := by
    simp only [markedBits, List.mem_cons, List.not_mem_nil, or_false] at member
    rcases member with rfl | rfl | rfl | rfl
    · exact .inl set
    · exact .inr (.inl set)
    · exact .inr (.inr (.inl set))
    · exact .inr (.inr (.inr set))
  revert one_set
  unfold Watcher.SingleChange
  generalize event.mask.toNat = mask
  by_cases closed : mask &&& fanCloseWrite = 0 <;> by_cases deleted : mask &&& fanDelete = 0 <;>
    by_cases movedFrom : mask &&& fanMovedFrom = 0 <;> by_cases movedTo : mask &&& fanMovedTo = 0 <;>
      simp [operationsOf, operationNames, Watcher.operationOfMask, Watcher.operationTypeToString,
        FSWatcher.parseEventMaskSimplified, closed, deleted, movedFrom, movedTo]

theorem pair_iff {entry : Bytes × KernelEvent} (marked : FSWatcher.Marked entry.2) :
    Watcher.pair entry = FSWatcher.pair entry ↔
      Watcher.SingleChange entry.2 ∧ Utf8.Valid entry.1 := by
  rw [Watcher.pair, FSWatcher.pair, Prod.mk.injEq, operation_iff marked, eq_comm,
    Utf8.encode_repair_iff, and_comm]

theorem Watcher.comparePathOf_root (rooted : [slash] <+: root) (inner : root ≠ [slash]) :
    comparePathOf root = root ++ [slash] := by
  obtain ⟨rest, rfl⟩ := rooted
  cases rest with
  | nil => contradiction
  | cons byte rest => rw [comparePathOf, if_pos (by simp)]

theorem Watcher.reports_iff {kernel : Watcher.Kernel} (resolves : kernel.Resolves directories)
    (rooted : [slash] <+: root) (inner : root ≠ [slash]) (stack : Stack) {events : List KernelEvent}
    (fits : (encodeEvents events).length ≤ bufferSize) (pairs : List (Bytes × String)) :
    Watcher.Reports kernel root stack (encodeEvents events) pairs ↔
      pairs = (accepted (root ++ [slash]) directories 0 events).map pair := by
  have shape : ((processEvents kernel (root ++ [slash]) 0 events).filterMap Processed.event).map
      (fun event => (event.path, event.operation)) =
      (accepted (root ++ [slash]) directories 0 events).map pair := by
    rw [processEvents_accepted resolves, List.map_map]
    rfl
  rw [Watcher.Reports, comparePathOf_root rooted inner, ← shape]
  constructor
  · rintro ⟨processed, returned, rfl⟩
    rw [onFsEvent_events_iff kernel _ stack fits] at returned
    rw [Handled.finished.inj (Except.ok.inj returned)]
  · intro same
    exact ⟨_, (onFsEvent_events_iff kernel _ stack fits _).mpr rfl, same⟩

theorem FSWatcher.parseEventMaskSimplified_marked {event : KernelEvent} (marked : Marked event) :
    ∃ operation, parseEventMaskSimplified event.mask.toNat = some operation := by
  obtain ⟨⟨bit, member, set⟩, _⟩ := marked
  have known : ∀ bit ∈ markedBits, ∃ entry ∈ operationNames, entry.1 = bit := by decide
  obtain ⟨entry, listed, rfl⟩ := known bit member
  have found : entry.2 ∈ operationsOf event.mask.toNat := mem_names listed set
  unfold parseEventMaskSimplified
  split
  · rename_i empty
    rw [empty] at found
    contradiction
  · exact ⟨_, rfl⟩
  · exact ⟨_, rfl⟩

/-- The parser keeps the events that are accepted, and each of them has its members. -/
theorem FSWatcher.members_reported (root : Bytes) (directories : Directories)
    {events : List KernelEvent} (call : Nat)
    (marked : ∀ event ∈ events, Marked event)
    (plain : ∀ event ∈ events, slash ∉ event.dfidName.name) :
    (reported (.ofRoot root true) (eventsOf directories call events)).mapM Event.members =
      some ((Watcher.accepted (root ++ [slash]) directories call events).map pair) := by
  induction events generalizing call with
  | nil => rfl
  | cons event others ih =>
      have later := ih (call + 1) (fun other member => marked other (List.mem_cons_of_mem _ member))
        (fun other member => plain other (List.mem_cons_of_mem _ member))
      have here : reported (.ofRoot root true) (eventsOf directories call (event :: others)) =
          if (Filter.ofRoot root true).allowPath (directories.dirpath call event) then
            eventOf directories call event ::
              reported (.ofRoot root true) (eventsOf directories (call + 1) others)
          else reported (.ofRoot root true) (eventsOf directories (call + 1) others) :=
        List.filter_cons
      rw [here, Watcher.accepted]
      cases found : directories.dirpath call event with
      | none => exact later
      | some dirpath =>
          have same := allowPath_iff root dirpath (plain event List.mem_cons_self)
          change _ ↔ root ++ [slash] <+: _ at same
          dsimp only
          by_cases below : root ++ [slash] <+: Watcher.pathOf dirpath event
          · obtain ⟨operation, simplified⟩ :=
              parseEventMaskSimplified_marked (marked event List.mem_cons_self)
            have members : (eventOf directories call event).members =
                some (pair (Watcher.pathOf dirpath event, event)) := by
              rw [Event.members, Event.actionSimplified, eventOf, simplified, pair, simplified]
              rw [Event.path, found]
              rfl
            rw [if_pos (same.mpr below), if_pos below, List.mapM_cons, members, later]
            rfl
          · rw [if_neg (fun allowed => below (same.mp allowed)), if_neg below]
            exact later

theorem FSWatcher.reports_iff {kernel : FSWatcher.Kernel} (resolves : kernel.Resolves directories)
    {events : List KernelEvent} (marked : ∀ event ∈ events, Marked event)
    (plain : ∀ event ∈ events, slash ∉ event.dfidName.name)
    (small : (encodeEvents events).length < 2 ^ 31) (beyond : Bytes) (pairs : List (Bytes × String)) :
    FSWatcher.Reports kernel root (encodeEvents events) beyond pairs ↔
      pairs = (Watcher.accepted (root ++ [slash]) directories 0 events).map pair := by
  have members := members_reported root directories 0 marked plain
  rw [FSWatcher.Reports]
  by_cases empty : events = []
  · subst empty
    simp [ReadEvents, encodeEvents, Watcher.accepted]
  · have nonempty : encodeEvents events ≠ [] := by
      obtain ⟨event, others, rfl⟩ := List.exists_cons_of_ne_nil empty
      have large := event.metadata_le_size
      rw [← List.length_pos_iff, length_encodeEvents_cons]
      simp only [eventMetadataLen] at large
      omega
    have parsed := fun outcome =>
      parse_encodeEvents_iff (.ofRoot root true) kernel directories resolves events empty marked
        small beyond outcome
    simp only [ReadEvents, if_neg nonempty, parsed]
    constructor
    · rintro ⟨found, ⟨_, rfl, same⟩, read⟩
      rw [Except.ok.inj same] at read
      exact Option.some.inj (read.symm.trans members)
    · rintro rfl
      exact ⟨_, ⟨_, rfl, rfl⟩, members⟩

/-- The watchers report the same pairs exactly if every event that they report is a single change
of a file with a valid path. -/
theorem same_reports_iff (watcher : Watcher.Kernel) (fsWatcher : FSWatcher.Kernel)
    (directories : Directories) (resolves : watcher.Resolves directories)
    (fsResolves : fsWatcher.Resolves directories) (root : Bytes) (rooted : [slash] <+: root)
    (inner : root ≠ [slash]) (stack : Watcher.Stack) (beyond : Bytes) (events : List KernelEvent)
    (marked : ∀ event ∈ events, FSWatcher.Marked event)
    (plain : ∀ event ∈ events, slash ∉ event.dfidName.name)
    (fits : (encodeEvents events).length ≤ Watcher.bufferSize) :
    SameReports watcher fsWatcher root stack (encodeEvents events) beyond ↔
      ∀ entry ∈ Watcher.accepted (root ++ [slash]) directories 0 events,
        Watcher.SingleChange entry.2 ∧ Utf8.Valid entry.1 := by
  have small : (encodeEvents events).length < 2 ^ 31 := by
    change _ ≤ 256 at fits
    omega
  have agree : SameReports watcher fsWatcher root stack (encodeEvents events) beyond ↔
      (Watcher.accepted (root ++ [slash]) directories 0 events).map Watcher.pair =
        (Watcher.accepted (root ++ [slash]) directories 0 events).map FSWatcher.pair := by
    simp only [SameReports, Watcher.reports_iff resolves rooted inner stack fits,
      FSWatcher.reports_iff fsResolves marked plain small, exists_eq_left]
  rw [agree, List.map_inj_left]
  apply forall₂_congr
  intro entry member
  exact pair_iff (marked entry.2 (Watcher.accepted_subset member))

section Example

/-- Every handle resolves to the watched directory `/w`. -/
def watchedRoot : Bytes := [0x2f, 0x77]

def resolving : Watcher.Kernel := ⟨fun _ _ _ => some 7, fun _ _ => some watchedRoot⟩

def fsResolving : FSWatcher.Kernel := ⟨fun _ _ _ => .ok 7, fun _ _ => .ok watchedRoot⟩

def someStack : Watcher.Stack :=
  ⟨List.replicate 280 0, by rw [List.length_replicate]; decide⟩

theorem resolving_root : resolving.Resolves fun _ _ _ => some watchedRoot :=
  fun _ _ _ => ⟨7, rfl, rfl⟩

theorem fsResolving_root : fsResolving.Resolves fun _ _ _ => some watchedRoot :=
  fun _ _ _ => ⟨7, rfl, rfl⟩

/-- The same file has been written and deleted before the watchers read. -/
def mergedFile : KernelEvent := { closedFile with mask := 0x208 }

theorem same_reports_closedFile :
    SameReports resolving fsResolving watchedRoot someStack (encodeEvents [closedFile]) [] := by
  apply (same_reports_iff resolving fsResolving (fun _ _ _ => some watchedRoot) resolving_root
    fsResolving_root watchedRoot ⟨[0x77], rfl⟩ (by decide) someStack [] [closedFile] _ _ _).mpr
  · intro entry member
    obtain rfl : entry = ([0x2f, 0x77, 0x2f, 0x61], closedFile) := List.mem_singleton.mp member
    exact ⟨⟨"close_for_write", by decide⟩, by decide +kernel⟩
  · intro event member
    rw [List.mem_singleton.mp member]
    exact ⟨⟨fanCloseWrite, by decide, by decide⟩, by decide⟩
  · intro event member
    rw [List.mem_singleton.mp member]
    decide
  · decide

/-- The C watcher reports a merged event as a removal, and the Go watcher as several changes. -/
theorem merged_reports_differ :
    Watcher.Reports resolving watchedRoot someStack (encodeEvents [mergedFile])
        [([0x2f, 0x77, 0x2f, 0x61], "remove")] ∧
      FSWatcher.Reports fsResolving watchedRoot (encodeEvents [mergedFile]) []
        [([0x2f, 0x77, 0x2f, 0x61], "multiple")] ∧
      ¬ SameReports resolving fsResolving watchedRoot someStack (encodeEvents [mergedFile]) [] := by
  have marked : ∀ event ∈ [mergedFile], FSWatcher.Marked event := by
    intro event member
    rw [List.mem_singleton.mp member]
    exact ⟨⟨fanCloseWrite, by decide, by decide⟩, by decide⟩
  have plain : ∀ event ∈ [mergedFile], slash ∉ event.dfidName.name := by
    intro event member
    rw [List.mem_singleton.mp member]
    decide
  have reports (pairs : List (Bytes × String)) : Watcher.Reports resolving watchedRoot someStack
      (encodeEvents [mergedFile]) pairs ↔ _ :=
    Watcher.reports_iff resolving_root ⟨[0x77], rfl⟩ (by decide) someStack (by decide) pairs
  have fsReports (pairs : List (Bytes × String)) : FSWatcher.Reports fsResolving watchedRoot
      (encodeEvents [mergedFile]) [] pairs ↔ _ :=
    FSWatcher.reports_iff fsResolving_root marked plain (by decide) [] pairs
  refine ⟨(reports _).mpr (by decide +kernel), (fsReports _).mpr (by decide +kernel), ?_⟩
  rintro ⟨pairs, left, right⟩
  have same := ((reports pairs).mp left).symm.trans ((fsReports pairs).mp right)
  exact absurd same (by decide +kernel)

end Example

end ClamavDbscan
