import ClamavDbscan.Construction.Queue.FinishableQueue

/-
This file proves that the ready event of a queue tells whether a wait for an item would suspend.
-/

namespace ClamavDbscan

namespace ReadyEvent

/-- A set event has no waiter left, and all its waiters have been created. -/
structure Orderly (event : ReadyEvent) (created : Nat) : Prop where
  woken : event.value = true → event.waiting = []
  known : ∀ number ∈ event.waiting ++ event.resolved, number < created

variable {event : ReadyEvent} {created : Nat}

@[simp] theorem set_value : event.set.value = true := by
  unfold set
  split
  · assumption
  · rfl

/-- A registered waiter stays registered or is woken. -/
theorem registered_set {number : Nat} (registered : number ∈ event.waiting ++ event.resolved) :
    number ∈ event.set.waiting ++ event.set.resolved := by
  unfold set
  split
  · exact registered
  · simpa [or_comm] using registered

theorem Orderly.set (orderly : event.Orderly created) : event.set.Orderly created := by
  unfold ReadyEvent.set
  split
  · exact orderly
  · refine ⟨fun _ => rfl, ?_⟩
    intro number member
    apply orderly.known number
    simpa [or_comm] using member

theorem Orderly.clear (orderly : event.Orderly created) : event.clear.Orderly created :=
  ⟨fun value => absurd value Bool.false_ne_true, orderly.known⟩

theorem Orderly.mono {more : Nat} (orderly : event.Orderly created) (larger : created ≤ more) :
    event.Orderly more :=
  ⟨orderly.woken, fun number member => Nat.lt_of_lt_of_le (orderly.known number member) larger⟩

end ReadyEvent

namespace FinishableQueue

variable {T : Type} {queue after : FinishableQueue T} {item : T}

/-- No call of `get` waits, and the event is set while an item can be taken. In a queue that is not
finished it is set only then. -/
structure Signalled (queue : FinishableQueue T) : Prop where
  waiters : queue.waiters = []
  set : queue.q ≠ [] → queue.readyEvent.value = true
  clear : queue.q = [] → queue.finishedFlag = false → queue.readyEvent.value = false

theorem Signalled.initial : (.initial : FinishableQueue T).Signalled :=
  ⟨rfl, fun nonempty => absurd rfl nonempty, fun _ _ => rfl⟩

/-- Without waiting calls an item joins the queue, and the event is set. -/
theorem put_open (signalled : queue.Signalled) (unfinished : queue.finishedFlag = false) (item : T) :
    (queue.put item).2 =
      { queue with q := queue.q ++ [item], readyEvent := queue.readyEvent.set } := by
  rw [put, if_neg (by rw [unfinished]; exact Bool.false_ne_true), signalled.waiters]
  rfl

theorem put_finished (finished : queue.finishedFlag = true) (item : T) :
    (queue.put item).2 = queue := by
  rw [put, if_pos finished]

theorem Signalled.put (signalled : queue.Signalled) (item : T) : (queue.put item).2.Signalled := by
  cases finished : queue.finishedFlag with
  | true => rwa [put_finished finished]
  | false =>
      rw [put_open signalled finished]
      exact ⟨signalled.waiters, fun _ => ReadyEvent.set_value, by simp⟩

theorem Signalled.finish (signalled : queue.Signalled) : queue.finish.2.Signalled := by
  unfold FinishableQueue.finish
  split
  · exact signalled
  · simp only [signalled.waiters, List.isEmpty_nil, if_true]
    exact ⟨rfl, fun _ => ReadyEvent.set_value, fun _ unfinished => by simp [markReady] at unfinished⟩

/-- Taking the last item clears the event. -/
theorem getNowait_eq (taken : queue.getNowait = (.ok item, after)) :
    queue.q = item :: after.q ∧ after = { queue with
      q := after.q
      readyEvent := if after.q.isEmpty then queue.readyEvent.clear else queue.readyEvent } := by
  unfold getNowait at taken
  split at taken
  · rename_i first others same
    obtain ⟨found, rfl⟩ := Prod.mk.inj taken
    obtain rfl := Except.ok.inj found
    exact ⟨same, rfl⟩
  · simp at taken

theorem Signalled.getNowait (signalled : queue.Signalled)
    (taken : queue.getNowait = (.ok item, after)) : after.Signalled := by
  obtain ⟨items, same⟩ := getNowait_eq taken
  have value : queue.readyEvent.value = true := signalled.set (by simp [items])
  rw [same]
  refine ⟨signalled.waiters, ?_, ?_⟩
  · intro nonempty
    simpa [nonempty] using value
  · intro empty _
    change after.q = [] at empty
    simp [empty, ReadyEvent.clear]

end FinishableQueue

end ClamavDbscan
