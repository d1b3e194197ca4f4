import ClamavDbscan.Proof.FSWatcher.Decode

/-
This file decides when an event without a directory leaves the other events alone.
-/

namespace ClamavDbscan.FSWatcher

open Fanotify Iteration

/-- The directory resolves, or the open fails with one of the two errors that keep the name. -/
def Kernel.Tolerated (kernel : Kernel) (call : Nat) (event : KernelEvent) : Prop :=
  match kernel.openByHandleAt call event.dfidName.handleType.toNat event.dfidName.handle with
  | .error errno => errno = estale ∨ errno = enomem
  | .ok fd => ∃ link, kernel.readlink call fd = .ok link

/-- An event gives this by itself. -/
def contribution (filter : Filter) (kernel : Kernel) (call : Nat) (event : KernelEvent) : List Event :=
  let parsed := kernel.parsed call event
  if parsed.filename = [] then []
  else reported filter [⟨parsed.dirpath, parsed.filename, event.mask.toNat⟩]

/-- Each event opens one handle and gives what it gives by itself. -/
def contributions (filter : Filter) (kernel : Kernel) : (call : Nat) → List KernelEvent → List Event
  | _, [] => []
  | call, event :: others =>
      contribution filter kernel call event ++ contributions filter kernel (call + 1) others

variable {filter : Filter} {kernel : Kernel} {events : List KernelEvent}

/-- The name is lost exactly after another failure. -/
theorem Kernel.tolerated_iff (kernel : Kernel) (call : Nat) (event : KernelEvent) :
    kernel.Tolerated call event ↔ (kernel.parsed call event).filename ≠ [] := by
  rw [Kernel.Tolerated, Kernel.parsed]
  cases kernel.openByHandleAt call event.dfidName.handleType.toNat event.dfidName.handle with
  | error errno =>
      dsimp only
      split
      · rename_i known
        exact iff_of_true known event.dfidName.named
      · rename_i unknown
        exact iff_of_false unknown (not_not.mpr rfl)
  | ok fd =>
      dsimp only
      cases kernel.readlink call fd with
      | error errno =>
          refine iff_of_false ?_ (not_not.mpr rfl)
          intro linked
          obtain ⟨link, same⟩ := linked
          contradiction
      | ok link => exact iff_of_true ⟨link, rfl⟩ event.dfidName.named

/-- The parser ends with all contributions, or it panics at the first name that is lost. -/
theorem outcomeOf_eq (filter : Filter) (kernel : Kernel) (events : List KernelEvent) (call : Nat)
    (results : List Event) :
    ((∀ entry ∈ events.zipIdx call, kernel.Tolerated entry.2 entry.1) ∧
        outcomeOf filter kernel call results events =
          .ok (results ++ contributions filter kernel call events)) ∨
      ((∃ entry ∈ events.zipIdx call, ¬ kernel.Tolerated entry.2 entry.1) ∧
        outcomeOf filter kernel call results events = .error .noFilepath) := by
  induction events generalizing call results with
  | nil => exact .inl ⟨fun _ => nofun, by rw [outcomeOf, contributions, List.append_nil]⟩
  | cons event others ih =>
      rw [List.zipIdx_cons, outcomeOf]
      by_cases tolerated : kernel.Tolerated call event
      · have named := (kernel.tolerated_iff call event).mp tolerated
        rw [if_neg named, contributions, contribution, if_neg named, ← List.append_assoc]
        rcases ih (call + 1) (results ++
          reported filter [⟨(kernel.parsed call event).dirpath, (kernel.parsed call event).filename,
            event.mask.toNat⟩]) with ⟨all, finished⟩ | ⟨⟨entry, member, lost⟩, panicked⟩
        · refine .inl ⟨?_, finished⟩
          intro entry member
          rcases List.mem_cons.mp member with rfl | later
          · exact tolerated
          · exact all entry later
        · exact .inr ⟨⟨entry, List.mem_cons_of_mem _ member, lost⟩, panicked⟩
      · have lost := not_not.mp (mt (kernel.tolerated_iff call event).mpr tolerated)
        rw [if_pos lost]
        exact .inr ⟨⟨(event, call), List.mem_cons_self, tolerated⟩, rfl⟩

/-- The parser does not panic, and each event gives what it gives by itself. -/
def Survives (filter : Filter) (kernel : Kernel) (events : List KernelEvent) (beyond : Bytes) : Prop :=
  Gives (turn filter kernel (encodeEvents events ++ beyond)) (start (encodeEvents events))
    (.ok (contributions filter kernel 0 events))

/-- The parser survives exactly the errors that keep the name. -/
theorem parse_survives_iff (filter : Filter) (kernel : Kernel) (events : List KernelEvent)
    (nonempty : events ≠ []) (marked : ∀ event ∈ events, Marked event)
    (small : (encodeEvents events).length < 2 ^ 31) (beyond : Bytes) :
    Survives filter kernel events beyond ↔
      ∀ entry ∈ events.zipIdx, kernel.Tolerated entry.2 entry.1 := by
  have given := parse_outcome filter kernel nonempty marked small beyond
  rw [Survives, Gives.iff_eq given]
  rcases outcomeOf_eq filter kernel events 0 [] with ⟨all, finished⟩ | ⟨⟨entry, member, lost⟩, panicked⟩
  · exact iff_of_true (by rw [finished, List.nil_append]) all
  · refine iff_of_false ?_ fun all => lost (all entry member)
    rw [panicked]
    exact nofun

theorem closedFile_marked (count : Nat) : ∀ event ∈ List.replicate count closedFile, Marked event := by
  intro event member
  rw [List.eq_of_mem_replicate member]
  exact ⟨⟨fanCloseWrite, by decide, by decide⟩, by decide⟩

/-- The first of two handles cannot be opened, and the second one leads to `/w`. -/
def failingFirst (errno : Nat) : Kernel :=
  ⟨fun call _ _ => if call = 0 then .error errno else .ok 7, fun _ _ => .ok [0x2f, 0x77]⟩

/-- A stale handle leaves the second event alone. -/
theorem survives_stale : Survives (.ofRoot [0x2f, 0x77] true) (failingFirst estale)
    (List.replicate 2 closedFile) [] := by
  apply (parse_survives_iff (.ofRoot [0x2f, 0x77] true) (failingFirst estale)
    (List.replicate 2 closedFile) (List.cons_ne_nil _ _) (closedFile_marked 2) (by decide +kernel) []).mpr
  intro entry member
  rcases List.mem_cons.mp member with rfl | member
  · exact .inl rfl
  · obtain rfl := List.mem_singleton.mp member
    exact ⟨_, rfl⟩

/-- With `EMFILE` for the first handle the parser panics, and the second event is lost. -/
theorem panics_on_emfile :
    Gives (turn (.ofRoot [0x2f, 0x77] true) (failingFirst 24)
        (encodeEvents (List.replicate 2 closedFile) ++ []))
        (start (encodeEvents (List.replicate 2 closedFile))) (.error .noFilepath) ∧
      ¬ Survives (.ofRoot [0x2f, 0x77] true) (failingFirst 24) (List.replicate 2 closedFile) [] := by
  have given := parse_outcome (.ofRoot [0x2f, 0x77] true) (failingFirst 24)
    (List.cons_ne_nil closedFile [closedFile]) (closedFile_marked 2) (by decide +kernel) []
  refine ⟨given, ?_⟩
  intro survives
  exact absurd (given.unique survives) nofun

end ClamavDbscan.FSWatcher
