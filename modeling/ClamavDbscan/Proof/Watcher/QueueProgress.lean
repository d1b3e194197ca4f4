import ClamavDbscan.Proof.Watcher.Decode

/-
This file decides when the C watcher empties the event queue of the kernel.
-/

namespace ClamavDbscan.Fanotify

/-- The fitting events are a first part of the queue and fill at most the room. -/
theorem takeFitting_append (room : Nat) (queue : List KernelEvent) :
    (takeFitting room queue).1 ++ (takeFitting room queue).2 = queue ∧
      (encodeEvents (takeFitting room queue).1).length ≤ room := by
  induction queue generalizing room with
  | nil => simp [takeFitting, encodeEvents]
  | cons event others ih =>
      rw [takeFitting]
      split
      · rename_i fits
        obtain ⟨split, filled⟩ := ih (room - event.size)
        refine ⟨congrArg (event :: ·) split, ?_⟩
        change (encodeEvents (event :: (takeFitting (room - event.size) others).1)).length ≤ room
        simp only [encodeEvents, List.flatMap_cons, List.length_append, event.length_encode] at filled ⊢
        omega
      · exact ⟨rfl, Nat.zero_le _⟩

/-- A read returns a first part of the queue if the first event fits. -/
theorem readEvents_fits {count : Nat} {event : KernelEvent} (fits : event.size ≤ count)
    (others : List KernelEvent) :
    ∃ batch rest, event :: others = batch ++ rest ∧ batch ≠ [] ∧
      (encodeEvents batch).length ≤ count ∧
      readEvents count (event :: others) = (some (encodeEvents batch), rest) := by
  obtain ⟨split, filled⟩ := takeFitting_append count (event :: others)
  refine ⟨_, _, split.symm, ?_, filled, ?_⟩
  · rw [takeFitting, if_pos fits]
    exact List.cons_ne_nil _ _
  · simp only [readEvents, takeFitting, if_pos fits]

theorem readEvents_rest (count : Nat) (queue : List KernelEvent) :
    (readEvents count queue).2 = (takeFitting count queue).2 := by
  unfold readEvents
  split <;> rename_i found <;> rw [found]

theorem size_le_encodeEvents {event : KernelEvent} {events : List KernelEvent}
    (member : event ∈ events) : event.size ≤ (encodeEvents events).length := by
  obtain ⟨front, back, rfl⟩ := List.append_of_mem member
  simp only [encodeEvents, List.flatMap_append, List.flatMap_cons, List.length_append,
    event.length_encode]
  omega

end ClamavDbscan.Fanotify

namespace ClamavDbscan.Watcher

open Fanotify

/-- Finitely many calls of `on_fs_event` empty the queue: each one dequeues a first part of it
that is not empty, and processes the events of this part once and in order. -/
inductive Served (comparePath : Bytes) (world : Nat → Kernel × Stack) :
    (number : Nat) → (queue : List KernelEvent) → Prop
  | empty (number : Nat) : Served comparePath world number []
  | call {number : Nat} {batch rest : List KernelEvent} {data : Option Bytes} :
      batch ≠ [] → readEvents bufferSize (batch ++ rest) = (data, rest) →
      OnFsEvent (world number).1 comparePath (world number).2 data
        (.ok (.finished (processEvents (world number).1 comparePath 0 batch))) →
      Served comparePath world (number + 1) rest → Served comparePath world number (batch ++ rest)

variable {comparePath : Bytes} {world : Nat → Kernel × Stack} {number : Nat}
  {queue : List KernelEvent}

/-- The calls dequeue no event that is larger than the buffer. -/
theorem Served.fits (served : Served comparePath world number queue) :
    ∀ event ∈ queue, event.size ≤ bufferSize := by
  induction served with
  | empty => simp
  | @call number batch rest data _ dequeued _ _ ih =>
      intro event member
      rcases List.mem_append.mp member with first | later
      · obtain ⟨split, filled⟩ := takeFitting_append bufferSize (batch ++ rest)
        have same : (takeFitting bufferSize (batch ++ rest)).2 = rest := by
          rw [← readEvents_rest, dequeued]
        rw [same] at split
        rw [List.append_cancel_right split] at filled
        exact (size_le_encodeEvents first).trans filled
      · exact ih event later

/-- Calls on events that fit the buffer go on until the queue is empty. -/
theorem served_of_fits (comparePath : Bytes) (world : Nat → Kernel × Stack) (number : Nat)
    (fits : ∀ event ∈ queue, event.size ≤ bufferSize) :
    Served comparePath world number queue := by
  induction size : queue.length using Nat.strong_induction_on generalizing queue number with
  | _ count ih =>
      cases queue with
      | nil => exact .empty number
      | cons event others =>
          obtain ⟨batch, rest, split, some_fits, filled, dequeued⟩ :=
            readEvents_fits (fits event (by simp)) others
          have shorter : rest.length < count := by
            have total := congrArg List.length split
            have positive := List.length_pos_iff.mpr some_fits
            rw [List.length_append] at total
            omega
          rw [split] at fits dequeued ⊢
          exact .call some_fits dequeued ((onFsEvent_events_iff _ comparePath _ filled _).mpr rfl)
            (ih rest.length shorter (number + 1)
              (fun later member => fits later (List.mem_append_right batch member)) rfl)

/-- The watcher serves the whole queue exactly if each event fits the buffer. -/
theorem served_iff_fits (comparePath : Bytes) (world : Nat → Kernel × Stack)
    (queue : List KernelEvent) :
    Served comparePath world 0 queue ↔ ∀ event ∈ queue, event.size ≤ bufferSize :=
  ⟨Served.fits, served_of_fits comparePath world 0⟩

/-- This event names a file with a name of the largest legal length. -/
def longNameEvent : KernelEvent where
  mask := 0x8
  pid := 1
  before := none
  dfidName := ⟨1, 1, List.replicate 8 1, List.replicate 255 0x61, by decide,
    by simp only [List.length_replicate]; decide,
    fun member => absurd (List.eq_of_mem_replicate member) (by decide)⟩
  after := none
  oneFid := .inl rfl

/-- One event with a long name stays at the front of the queue, and the calls process nothing. -/
theorem long_name_never_served :
    readEvents bufferSize [longNameEvent] = (none, [longNameEvent]) ∧
      (∀ kernel comparePath stack outcome,
        OnFsEvent kernel comparePath stack none outcome → outcome = .ok (.finished [])) ∧
      ¬ ∀ (comparePath : Bytes) (world : Nat → Kernel × Stack) (queue : List KernelEvent),
        Served comparePath world 0 queue := by
  have large : ¬ longNameEvent.size ≤ bufferSize := by decide +kernel
  refine ⟨?_, fun kernel comparePath stack outcome => (onFsEvent_failed_iff _ _ _ _).mp, ?_⟩
  · simp only [readEvents, takeFitting, if_neg large]
  · intro always
    have world : Kernel × Stack :=
      (⟨fun _ _ _ => none, fun _ _ => none⟩,
        ⟨List.replicate 280 0, by rw [List.length_replicate]; decide⟩)
    have served := always [] (fun _ => world) [longNameEvent]
    exact large (served.fits longNameEvent (by simp))

end ClamavDbscan.Watcher
