import ClamavDbscan.Construction.Queue.QueueTasks
import Mathlib.Data.List.Nodup

/-
This file decides when a queue conserves its items and its waiting tasks.
-/

namespace ClamavDbscan

open Transition

namespace FinishableQueue

variable {T : Type} {queue : FinishableQueue T}

/-- A put is refused after the end, queues the item, hands it over, or meets a waiter that is gone. -/
inductive PutCase (queue : FinishableQueue T) (item : T) : Prop
  | refused : queue.finishedFlag = true → queue.put item = (.error .queueFull, queue) →
      PutCase queue item
  | queued : queue.finishedFlag = false → queue.waiters = [] →
      queue.put item = (.ok (), { queue with q := queue.q ++ [item] }.markReady) → PutCase queue item
  | handed (waiter : Nat) (others : List Nat) : queue.finishedFlag = false →
      queue.waiters = waiter :: others → queue.futures[waiter]? = some .pending →
      queue.put item = (.ok (), { queue with
        waiters := others, futures := queue.futures.set waiter (.result item) }) → PutCase queue item
  | gone (waiter : Nat) (others : List Nat) : queue.finishedFlag = false →
      queue.waiters = waiter :: others → queue.futures[waiter]? ≠ some .pending →
      queue.put item = (.error .invalidState, { queue with waiters := others }) → PutCase queue item

theorem put_cases (queue : FinishableQueue T) (item : T) : PutCase queue item := by
  cases finished : queue.finishedFlag with
  | true =>
      refine .refused finished ?_
      rw [put, if_pos finished]
  | false =>
      cases waits : queue.waiters with
      | nil =>
          refine .queued finished waits ?_
          rw [put, if_neg (by rw [finished]; exact Bool.false_ne_true), waits]
      | cons waiter others =>
          by_cases pending : queue.futures[waiter]? = some .pending
          · refine .handed waiter others finished waits pending ?_
            rw [put, if_neg (by rw [finished]; exact Bool.false_ne_true), waits]
            dsimp only
            rw [pending]
          · refine .gone waiter others finished waits pending ?_
            rw [put, if_neg (by rw [finished]; exact Bool.false_ne_true), waits]
            dsimp only
            split
            · contradiction
            · rfl

/-- A call of `get` takes the first item, is refused after the end, or suspends. -/
inductive GetCase (queue : FinishableQueue T) : Prop
  | taken (item : T) (others : List T) : queue.q = item :: others →
      queue.get = (.ok (.inl item), { queue with q := others }) → GetCase queue
  | refused : queue.q = [] → queue.finishedFlag = true → queue.get = (.error .queueEmpty, queue) →
      GetCase queue
  | suspended : queue.q = [] → queue.finishedFlag = false →
      queue.get = (.ok (.inr queue.futures.length), { queue with
        waiters := queue.waiters ++ [queue.futures.length]
        futures := queue.futures ++ [.pending] }) → GetCase queue

theorem get_cases (queue : FinishableQueue T) : GetCase queue := by
  cases first : queue.q with
  | cons item others => exact .taken item others first (by rw [get, first])
  | nil =>
      cases finished : queue.finishedFlag with
      | true => exact .refused first finished (by simp [get, first, finished])
      | false => exact .suspended first finished (by simp [get, first, finished])

/-- Failing the waiters changes nothing but pending futures of waiters. -/
theorem failWaiters_futures (waiters : List Nat) (futures : List (GetFuture T)) (number : Nat) :
    (failWaiters waiters futures).2[number]? = futures[number]? ∨
      (futures[number]? = some .pending ∧ (failWaiters waiters futures).2[number]? = some .queueEmpty) := by
  induction waiters generalizing futures with
  | nil => exact .inl rfl
  | cons waiter others ih =>
      unfold failWaiters
      split
      · rename_i pending
        have replaced := getElem?_replace pending .queueEmpty number
        rcases ih (futures.set waiter .queueEmpty) with same | ⟨still, failed⟩
        · rw [same, replaced]
          split
          · rename_i here
            exact .inr ⟨here ▸ pending, rfl⟩
          · exact .inl rfl
        · rw [replaced] at still
          split at still
          · cases still
          · exact .inr ⟨still, failed⟩
      · exact .inl rfl

theorem failWaiters_length (waiters : List Nat) (futures : List (GetFuture T)) :
    (failWaiters waiters futures).2.length = futures.length := by
  induction waiters generalizing futures with
  | nil => rfl
  | cons waiter others ih =>
      unfold failWaiters
      split
      · rw [ih, List.length_set]
      · rfl

/-- Different pending waiters are all failed. -/
theorem failWaiters_pending {waiters : List Nat} {futures : List (GetFuture T)} (different : waiters.Nodup)
    (pending : ∀ number ∈ waiters, futures[number]? = some .pending) :
    (failWaiters waiters futures).1 = .ok () ∧
      ∀ number ∈ waiters, (failWaiters waiters futures).2[number]? = some .queueEmpty := by
  induction waiters generalizing futures with
  | nil => exact ⟨rfl, fun _ member => absurd member List.not_mem_nil⟩
  | cons waiter others ih =>
      obtain ⟨absent, rest⟩ := List.nodup_cons.mp different
      have first := pending waiter List.mem_cons_self
      have replaced := getElem?_replace first .queueEmpty
      have later : ∀ number ∈ others, (futures.set waiter .queueEmpty)[number]? = some .pending := by
        intro number member
        have other : number ≠ waiter := fun same => absent (same ▸ member)
        rw [replaced, if_neg other]
        exact pending number (List.mem_cons_of_mem _ member)
      obtain ⟨succeeds, failed⟩ := ih rest later
      rw [failWaiters, first]
      dsimp only
      refine ⟨succeeds, ?_⟩
      intro number member
      rcases List.mem_cons.mp member with rfl | member
      · rcases failWaiters_futures others (futures.set number .queueEmpty) number with same | ⟨still, _⟩
        · rw [same, replaced, if_pos rfl]
        · rw [replaced, if_pos rfl] at still
          cases still
      · exact failed number member

/-- A waiter that is gone stops the loop. -/
theorem failWaiters_gone {waiters : List Nat} {futures : List (GetFuture T)} {number : Nat}
    (member : number ∈ waiters) (gone : futures[number]? ≠ some .pending) :
    (failWaiters waiters futures).1 = .error .invalidState := by
  induction waiters generalizing futures with
  | nil => contradiction
  | cons waiter others ih =>
      unfold failWaiters
      split
      · rename_i pending
        have other : number ≠ waiter := fun same => gone (same ▸ pending)
        refine ih ((List.mem_cons.mp member).resolve_left other) ?_
        rw [getElem?_replace pending, if_neg other]
        exact gone
      · rfl

theorem failWaiters_raises (waiters : List Nat) (futures : List (GetFuture T)) :
    (failWaiters waiters futures).1 = .ok () ∨ (failWaiters waiters futures).1 = .error .invalidState := by
  induction waiters generalizing futures with
  | nil => exact .inl rfl
  | cons waiter others ih =>
      unfold failWaiters
      split
      · exact ih _
      · exact .inr rfl

/-- A queue is finished already, has no waiter, or fails its waiters. -/
inductive FinishCase (queue : FinishableQueue T) : Prop
  | again : queue.finishedFlag = true → queue.finish = (.ok (), queue) → FinishCase queue
  | alone : queue.finishedFlag = false → queue.waiters = [] →
      queue.finish = (.ok (), { queue with finishedFlag := true }.markReady) → FinishCase queue
  | failed (futures : List (GetFuture T)) : queue.finishedFlag = false → queue.waiters ≠ [] →
      failWaiters queue.waiters queue.futures = (.ok (), futures) →
      queue.finish = (.ok (), { queue with finishedFlag := true, futures := futures }.markReady) →
      FinishCase queue
  | stopped (raised : QueueError) (futures : List (GetFuture T)) : queue.finishedFlag = false →
      queue.waiters ≠ [] → failWaiters queue.waiters queue.futures = (.error raised, futures) →
      queue.finish = (.error raised, { queue with finishedFlag := true, futures := futures }) →
      FinishCase queue

/-- The assertion holds if waiters are there only for an empty queue. -/
theorem finish_cases (idle : queue.waiters = [] ∨ queue.q = []) : FinishCase queue := by
  cases finished : queue.finishedFlag with
  | true =>
      refine .again finished ?_
      rw [finish, if_pos finished]
  | false =>
      have unfinished : ¬ queue.finishedFlag = true := by
        rw [finished]
        exact Bool.false_ne_true
      by_cases alone : queue.waiters = []
      · refine .alone finished alone ?_
        simp [finish, finished, alone]
      · have empty := idle.resolve_left alone
        cases outcome : failWaiters queue.waiters queue.futures with
        | mk result futures =>
            cases result with
            | ok done =>
                refine .failed futures finished alone outcome ?_
                rw [finish, if_neg unfinished]
                dsimp only
                rw [if_neg (by simpa using alone), if_pos (by simpa using empty), outcome]
            | error raised =>
                refine .stopped raised futures finished alone outcome ?_
                rw [finish, if_neg unfinished]
                dsimp only
                rw [if_neg (by simpa using alone), if_pos (by simpa using empty), outcome]

end FinishableQueue

namespace QueueTasks

variable {T : Type} {tasks after : QueueTasks T} {label : Label T}

/-- A request reaches a getter that is suspended. -/
theorem step_cancel {number : Nat} (stepped : tasks.step (.cancel number) = some after) :
    ∃ asked, tasks.getters[number]? = some ⟨asked, none⟩ ∧ after = tasks.cancel number ⟨asked, none⟩ := by
  simp only [step] at stepped
  split at stepped
  · rename_i asked stored
    exact ⟨asked, stored, (Option.some.inj stepped).symm⟩
  · contradiction

/-- A getter is resumed when its future is not pending any more. -/
theorem step_resume {number : Nat} (stepped : tasks.step (.resume number) = some after) :
    ∃ asked future outcome, tasks.getters[number]? = some ⟨asked, none⟩ ∧
      tasks.queue.futures[number]? = some future ∧ outcomeOf ⟨asked, none⟩ future = some outcome ∧
      after = { tasks with getters := tasks.getters.set number ⟨asked, some outcome⟩ } := by
  simp only [step] at stepped
  split at stepped
  · rename_i asked future stored resolved
    obtain ⟨outcome, ended, rfl⟩ := Option.map_eq_some_iff.mp stepped
    exact ⟨asked, future, outcome, stored, resolved, ended, rfl⟩
  · contradiction

/-- This invariant holds in every state of every run. -/
structure Sound (tasks : QueueTasks T) : Prop where
  getters : tasks.getters.length = tasks.queue.futures.length
  idle : tasks.queue.waiters = [] ∨ tasks.queue.q = []
  different : tasks.queue.waiters.Nodup
  waiting : tasks.queue.finishedFlag = false → ∀ number ∈ tasks.queue.waiters,
    tasks.queue.futures[number]? = some .pending ∨ tasks.queue.futures[number]? = some .cancelled
  pending : tasks.queue.finishedFlag = false → ∀ number : Nat,
    tasks.queue.futures[number]? = some .pending → number ∈ tasks.queue.waiters
  order : tasks.handed.map Prod.fst ++ tasks.queue.q = tasks.accepted
  given : ∀ (number : Nat) (item : T),
    tasks.queue.futures[number]? = some (.result item) ↔ (item, some number) ∈ tasks.handed
  once : (tasks.handed.filterMap Prod.snd).Nodup
  asked : ∀ (number : Nat) (getter : Getter T), tasks.getters[number]? = some getter →
    tasks.queue.futures[number]? = some .cancelled → getter.cancelRequested = true
  returned : ∀ (number : Nat) (getter : Getter T) (item : T), tasks.getters[number]? = some getter →
    getter.outcome = some (.returned item) → tasks.queue.futures[number]? = some (.result item)
  untouched : ∀ number : Nat, tasks.queue.futures[number]? = some .pending →
    tasks.getters[number]? = some ⟨false, none⟩

namespace Sound

theorem initial : (.initial : QueueTasks T).Sound := by
  constructor <;> simp [QueueTasks.initial, FinishableQueue.initial]

/-- The event does not matter. -/
theorem ready {event : ReadyEvent} (sound : tasks.Sound) :
    Sound { tasks with queue := { tasks.queue with readyEvent := event } } :=
  ⟨sound.getters, sound.idle, sound.different, sound.waiting, sound.pending, sound.order, sound.given,
    sound.once, sound.asked, sound.returned, sound.untouched⟩

theorem mem_handed (sound : tasks.Sound) {number : Nat} :
    number ∈ tasks.handed.filterMap Prod.snd ↔ ∃ item, tasks.queue.futures[number]? = some (.result item) := by
  rw [List.mem_filterMap]
  constructor
  · rintro ⟨⟨item, _⟩, member, rfl⟩
    exact ⟨item, (sound.given number item).mpr member⟩
  · rintro ⟨item, given⟩
    exact ⟨(item, some number), (sound.given number item).mp given, rfl⟩

/-- A waiter that is pending gets the item. -/
theorem handOver (sound : tasks.Sound) {waiter : Nat} {others : List Nat} (item : T)
    (unfinished : tasks.queue.finishedFlag = false) (waits : tasks.queue.waiters = waiter :: others)
    (pending : tasks.queue.futures[waiter]? = some .pending) :
    Sound { tasks with
      queue := { tasks.queue with
        waiters := others, futures := tasks.queue.futures.set waiter (.result item) }
      accepted := tasks.accepted ++ [item]
      handed := tasks.handed ++ [(item, some waiter)] } := by
  have different := sound.different
  have waiting := sound.waiting unfinished
  rw [waits] at different waiting
  obtain ⟨absent, rest⟩ := List.nodup_cons.mp different
  have empty : tasks.queue.q = [] := sound.idle.resolve_left (by rw [waits]; exact List.cons_ne_nil _ _)
  have replaced := getElem?_replace pending (.result item)
  have fresh : ∀ other, (other, some waiter) ∉ tasks.handed := by
    intro other member
    rw [← sound.given, pending] at member
    cases member
  constructor
  · exact sound.getters.trans List.length_set.symm
  · exact .inr empty
  · exact rest
  · intro _ number member
    have other : number ≠ waiter := fun same => absent (same ▸ member)
    change (tasks.queue.futures.set waiter (.result item))[number]? = _ ∨ _
    rw [replaced, if_neg other]
    exact waiting number (List.mem_cons_of_mem _ member)
  · intro _ number still
    change (tasks.queue.futures.set waiter (.result item))[number]? = _ at still
    rw [replaced] at still
    split at still
    · cases still
    · rename_i other
      have member := sound.pending unfinished number still
      rw [waits] at member
      exact (List.mem_cons.mp member).resolve_left other
  · change (tasks.handed ++ [(item, some waiter)]).map Prod.fst ++ tasks.queue.q = tasks.accepted ++ [item]
    have order := sound.order
    rw [empty, List.append_nil] at order
    rw [empty, List.append_nil, List.map_append, order]
    rfl
  · intro number other
    change (tasks.queue.futures.set waiter (.result item))[number]? = _ ↔
      _ ∈ tasks.handed ++ [(item, some waiter)]
    rw [replaced, List.mem_append, List.mem_singleton, Prod.mk.injEq, Option.some.injEq]
    split
    · rename_i same
      subst same
      rw [Option.some.injEq, GetFuture.result.injEq, or_iff_right (fresh other), and_iff_left rfl]
      exact eq_comm
    · rename_i apart
      rw [or_iff_left fun both => apart both.2]
      exact sound.given number other
  · change ((tasks.handed ++ [(item, some waiter)]).filterMap Prod.snd).Nodup
    rw [List.filterMap_append]
    refine List.nodup_append'.mpr ⟨sound.once, List.nodup_singleton _, ?_⟩
    refine List.disjoint_singleton.mpr ?_
    intro member
    obtain ⟨other, given⟩ := sound.mem_handed.mp member
    rw [pending] at given
    cases given
  · intro number getter stored cancelled
    change (tasks.queue.futures.set waiter (.result item))[number]? = _ at cancelled
    rw [replaced] at cancelled
    split at cancelled
    · cases cancelled
    · exact sound.asked number getter stored cancelled
  · intro number getter other stored outcome
    have before := sound.returned number getter other stored outcome
    change (tasks.queue.futures.set waiter (.result item))[number]? = _
    rw [replaced]
    split
    · rename_i same
      rw [same, pending] at before
      cases before
    · exact before
  · intro number still
    change (tasks.queue.futures.set waiter (.result item))[number]? = _ at still
    rw [replaced] at still
    split at still
    · cases still
    · exact sound.untouched number still

theorem put (sound : tasks.Sound) (item : T) : (tasks.put item).Sound := by
  cases tasks.queue.put_cases item with
  | refused finished result =>
      rw [QueueTasks.put, result]
      exact sound
  | queued unfinished alone result =>
      have queued : Sound { tasks with
          queue := { tasks.queue with q := tasks.queue.q ++ [item] }
          accepted := tasks.accepted ++ [item] } := by
        have order : tasks.handed.map Prod.fst ++ (tasks.queue.q ++ [item]) = tasks.accepted ++ [item] := by
          rw [← List.append_assoc, sound.order]
        exact ⟨sound.getters, .inl alone, sound.different, sound.waiting, sound.pending, order,
          sound.given, sound.once, sound.asked, sound.returned, sound.untouched⟩
      rw [QueueTasks.put, result]
      dsimp only
      rw [show tasks.queue.waiters.head? = none by rw [alone]; rfl, Option.map_none, Option.toList_none,
        List.append_nil]
      exact queued.ready
  | handed waiter others unfinished waits pending result =>
      rw [QueueTasks.put, result]
      dsimp only
      rw [show tasks.queue.waiters.head? = some waiter by rw [waits]; rfl]
      exact sound.handOver item unfinished waits pending
  | gone waiter others unfinished waits gone result =>
      rw [QueueTasks.put, result]
      have different := sound.different
      have waiting := sound.waiting unfinished
      rw [waits] at different waiting
      have empty : tasks.queue.q = [] := sound.idle.resolve_left (by rw [waits]; exact List.cons_ne_nil _ _)
      refine ⟨sound.getters, .inr empty, (List.nodup_cons.mp different).2, ?_, ?_, sound.order,
        sound.given, sound.once, sound.asked, sound.returned, sound.untouched⟩
      · exact fun _ number member => waiting number (List.mem_cons_of_mem _ member)
      · intro _ number still
        have member := sound.pending unfinished number still
        rw [waits] at member
        exact (List.mem_cons.mp member).resolve_left fun same => gone (same ▸ still)

/-- The first item goes to a call that returns at once. -/
theorem takeFirst (sound : tasks.Sound) {item : T} {others : List T} (first : tasks.queue.q = item :: others) :
    Sound { tasks with
      queue := { tasks.queue with q := others }, handed := tasks.handed ++ [(item, none)] } := by
  have alone : tasks.queue.waiters = [] :=
    sound.idle.resolve_right (by rw [first]; exact List.cons_ne_nil _ _)
  refine ⟨sound.getters, .inl alone, sound.different, sound.waiting, sound.pending, ?_, ?_, ?_,
    sound.asked, sound.returned, sound.untouched⟩
  · change (tasks.handed ++ [(item, none)]).map Prod.fst ++ others = tasks.accepted
    have order := sound.order
    rw [first] at order
    rw [← order, List.map_append, List.append_assoc]
    rfl
  · intro number other
    change _ ↔ (other, some number) ∈ tasks.handed ++ [(item, none)]
    rw [sound.given, List.mem_append, or_iff_left]
    intro last
    cases List.mem_singleton.mp last
  · change ((tasks.handed ++ [(item, none)]).filterMap Prod.snd).Nodup
    rw [List.filterMap_append]
    exact (List.append_nil _).symm ▸ sound.once

theorem getNowait (sound : tasks.Sound) : tasks.getNowait.Sound := by
  unfold QueueTasks.getNowait FinishableQueue.getNowait
  cases first : tasks.queue.q with
  | nil => exact sound
  | cons item others => exact (sound.takeFirst first).ready

/-- A call of `get` suspends on a new future. -/
theorem suspend (sound : tasks.Sound) (empty : tasks.queue.q = [])
    (unfinished : tasks.queue.finishedFlag = false) :
    Sound { tasks with
      queue := { tasks.queue with
        waiters := tasks.queue.waiters ++ [tasks.queue.futures.length]
        futures := tasks.queue.futures ++ [.pending] }
      getters := tasks.getters ++ [⟨false, none⟩] } := by
  have created : ∀ number, number ∈ tasks.queue.waiters → number < tasks.queue.futures.length := by
    intro number member
    rcases sound.waiting unfinished number member with stored | stored <;>
      exact (List.getElem?_eq_some_iff.mp stored).1
  have fresh : tasks.queue.futures.length ∉ tasks.queue.waiters := fun member =>
    absurd (created _ member) (Nat.lt_irrefl _)
  constructor
  · change (tasks.getters ++ [_]).length = (tasks.queue.futures ++ [_]).length
    rw [List.length_append, List.length_append, sound.getters]
    rfl
  · exact .inr empty
  · exact List.nodup_append'.mpr
      ⟨sound.different, List.nodup_singleton _, List.disjoint_singleton.mpr fresh⟩
  · intro _ number member
    change (tasks.queue.futures ++ [.pending])[number]? = _ ∨ (tasks.queue.futures ++ [.pending])[number]? = _
    rw [getElem?_snoc]
    split
    · exact .inl rfl
    · rename_i old
      rcases List.mem_append.mp member with before | last
      · exact sound.waiting unfinished number before
      · exact absurd (List.mem_singleton.mp last) old
  · intro _ number still
    change (tasks.queue.futures ++ [.pending])[number]? = _ at still
    rw [getElem?_snoc] at still
    split at still
    · rename_i last
      exact List.mem_append_right _ (List.mem_singleton.mpr last)
    · exact List.mem_append_left _ (sound.pending unfinished number still)
  · exact sound.order
  · intro number item
    rw [← sound.given]
    change (tasks.queue.futures ++ [.pending])[number]? = _ ↔ _
    rw [getElem?_snoc]
    split
    · rename_i last
      rw [last, List.getElem?_eq_none (Nat.le_refl _)]
      simp
    · rfl
  · exact sound.once
  · intro number getter stored cancelled
    change (tasks.getters ++ [_])[number]? = _ at stored
    change (tasks.queue.futures ++ [.pending])[number]? = _ at cancelled
    rw [getElem?_snoc] at stored cancelled
    rw [sound.getters] at stored
    split at stored
    · rename_i last
      rw [if_pos last] at cancelled
      cases cancelled
    · rename_i old
      rw [if_neg old] at cancelled
      exact sound.asked number getter stored cancelled
  · intro number getter item stored outcome
    change (tasks.getters ++ [_])[number]? = _ at stored
    change (tasks.queue.futures ++ [.pending])[number]? = _
    rw [getElem?_snoc] at stored ⊢
    rw [sound.getters] at stored
    split at stored
    · obtain rfl := Option.some.inj stored
      cases outcome
    · rename_i old
      rw [if_neg old]
      exact sound.returned number getter item stored outcome
  · intro number still
    change (tasks.queue.futures ++ [.pending])[number]? = _ at still
    change (tasks.getters ++ [_])[number]? = _
    rw [getElem?_snoc] at still ⊢
    rw [sound.getters]
    split
    · rfl
    · rename_i old
      rw [if_neg old] at still
      exact sound.untouched number still

theorem get (sound : tasks.Sound) : tasks.get.Sound := by
  cases tasks.queue.get_cases with
  | taken item others first result =>
      rw [QueueTasks.get, result]
      exact sound.takeFirst first
  | refused empty finished result =>
      rw [QueueTasks.get, result]
      exact sound
  | suspended empty unfinished result =>
      rw [QueueTasks.get, result]
      exact sound.suspend empty unfinished

/-- Futures that change only from pending to an end without an item keep the items. -/
theorem setFutures (sound : tasks.Sound) {futures : List (GetFuture T)}
    (length : futures.length = tasks.queue.futures.length)
    (failed : ∀ number : Nat, futures[number]? = tasks.queue.futures[number]? ∨
      (tasks.queue.futures[number]? = some .pending ∧ futures[number]? = some .queueEmpty)) :
    Sound { tasks with queue := { tasks.queue with finishedFlag := true, futures := futures } } := by
  refine ⟨sound.getters.trans length.symm, sound.idle, sound.different, nofun, nofun, sound.order, ?_,
    sound.once, ?_, ?_, ?_⟩
  · intro number item
    rw [← sound.given]
    change futures[number]? = _ ↔ _
    rcases failed number with same | ⟨pending, ended⟩
    · rw [same]
    · rw [pending, ended]
      simp
  · intro number getter stored cancelled
    change futures[number]? = _ at cancelled
    rcases failed number with same | ⟨_, ended⟩
    · exact sound.asked number getter stored (same ▸ cancelled)
    · rw [ended] at cancelled
      cases cancelled
  · intro number getter item stored outcome
    have before := sound.returned number getter item stored outcome
    change futures[number]? = _
    rcases failed number with same | ⟨pending, _⟩
    · rw [same]
      exact before
    · rw [pending] at before
      cases before
  · intro number still
    change futures[number]? = _ at still
    rcases failed number with same | ⟨_, ended⟩
    · exact sound.untouched number (same ▸ still)
    · rw [ended] at still
      cases still

theorem finish (sound : tasks.Sound) : Sound { tasks with queue := tasks.queue.finish.2 } := by
  cases FinishableQueue.finish_cases sound.idle with
  | again finished result =>
      rw [result]
      exact sound
  | alone unfinished alone result =>
      rw [result]
      exact (sound.setFutures rfl fun _ => .inl rfl).ready
  | failed futures unfinished waits outcome result =>
      have length := FinishableQueue.failWaiters_length tasks.queue.waiters tasks.queue.futures
      have changed := FinishableQueue.failWaiters_futures tasks.queue.waiters tasks.queue.futures
      rw [outcome] at length changed
      rw [result]
      exact (sound.setFutures length changed).ready
  | stopped raised futures unfinished waits outcome result =>
      have length := FinishableQueue.failWaiters_length tasks.queue.waiters tasks.queue.futures
      have changed := FinishableQueue.failWaiters_futures tasks.queue.waiters tasks.queue.futures
      rw [outcome] at length changed
      rw [result]
      exact sound.setFutures length changed

theorem untilItemReady (sound : tasks.Sound) : tasks.untilItemReady.Sound := by
  unfold QueueTasks.untilItemReady
  split
  · exact sound
  · exact ⟨sound.getters, sound.idle, sound.different, sound.waiting, sound.pending, sound.order,
      sound.given, sound.once, sound.asked, sound.returned, sound.untouched⟩

/-- A request cancels a future that is pending. -/
theorem cancelFuture_futures (queue : FinishableQueue T) (number other : Nat) :
    (cancelFuture queue number).futures[other]? = queue.futures[other]? ∨
      (other = number ∧ queue.futures[other]? = some .pending ∧
        (cancelFuture queue number).futures[other]? = some .cancelled) := by
  unfold cancelFuture
  split
  · rename_i pending
    change (queue.futures.set number .cancelled)[other]? = _ ∨
      _ ∧ _ ∧ (queue.futures.set number .cancelled)[other]? = _
    rw [getElem?_replace pending]
    split
    · rename_i same
      exact .inr ⟨same, same ▸ pending, rfl⟩
    · exact .inl rfl
  · exact .inl rfl

theorem cancelFuture_ne_pending (queue : FinishableQueue T) (number : Nat) :
    (cancelFuture queue number).futures[number]? ≠ some .pending := by
  unfold cancelFuture
  split
  · rename_i pending
    change (queue.futures.set number .cancelled)[number]? ≠ _
    rw [getElem?_replace pending, if_pos rfl]
    simp
  · rename_i other
    exact other

theorem cancelFuture_keeps (queue : FinishableQueue T) (number : Nat) :
    (cancelFuture queue number).q = queue.q ∧ (cancelFuture queue number).waiters = queue.waiters ∧
      (cancelFuture queue number).finishedFlag = queue.finishedFlag ∧
      (cancelFuture queue number).readyEvent = queue.readyEvent ∧
      (cancelFuture queue number).futures.length = queue.futures.length := by
  unfold cancelFuture
  split
  · exact ⟨rfl, rfl, rfl, rfl, List.length_set⟩
  · exact ⟨rfl, rfl, rfl, rfl, rfl⟩

theorem cancel (sound : tasks.Sound) {number : Nat} {getter : Getter T}
    (stored : tasks.getters[number]? = some getter) (suspended : getter.outcome = none) :
    (tasks.cancel number getter).Sound := by
  obtain ⟨q, waiters, finished, _, length⟩ := cancelFuture_keeps tasks.queue number
  have futures := cancelFuture_futures tasks.queue number
  constructor
  · change (tasks.getters.set number _).length = (cancelFuture tasks.queue number).futures.length
    rw [List.length_set, length]
    exact sound.getters
  · change (cancelFuture tasks.queue number).waiters = [] ∨ (cancelFuture tasks.queue number).q = []
    rw [waiters, q]
    exact sound.idle
  · change (cancelFuture tasks.queue number).waiters.Nodup
    rw [waiters]
    exact sound.different
  · intro unfinished other member
    change other ∈ (cancelFuture tasks.queue number).waiters at member
    change (cancelFuture tasks.queue number).finishedFlag = false at unfinished
    change (cancelFuture tasks.queue number).futures[other]? = _ ∨
      (cancelFuture tasks.queue number).futures[other]? = _
    rw [waiters] at member
    rw [finished] at unfinished
    rcases futures other with same | ⟨_, _, ended⟩
    · rw [same]
      exact sound.waiting unfinished other member
    · exact .inr ended
  · intro unfinished other still
    change (cancelFuture tasks.queue number).finishedFlag = false at unfinished
    change (cancelFuture tasks.queue number).futures[other]? = _ at still
    change other ∈ (cancelFuture tasks.queue number).waiters
    rw [waiters]
    rw [finished] at unfinished
    rcases futures other with same | ⟨_, _, ended⟩
    · exact sound.pending unfinished other (same ▸ still)
    · rw [ended] at still
      cases still
  · change tasks.handed.map Prod.fst ++ (cancelFuture tasks.queue number).q = tasks.accepted
    rw [q]
    exact sound.order
  · intro other item
    change (cancelFuture tasks.queue number).futures[other]? = _ ↔ (item, some other) ∈ tasks.handed
    rw [← sound.given]
    rcases futures other with same | ⟨_, pending, ended⟩
    · rw [same]
    · rw [pending, ended]
      simp
  · exact sound.once
  · intro other entry present cancelled
    change (cancelFuture tasks.queue number).futures[other]? = _ at cancelled
    rcases replace_cases present with ⟨_, rfl⟩ | ⟨apart, present⟩
    · rfl
    · rcases futures other with same | ⟨same, _⟩
      · exact sound.asked other entry present (same ▸ cancelled)
      · exact absurd same apart
  · intro other entry item present outcome
    change (cancelFuture tasks.queue number).futures[other]? = _
    rcases replace_cases present with ⟨_, rfl⟩ | ⟨_, present⟩
    · exact absurd (suspended.symm.trans outcome) nofun
    · have before := sound.returned other entry item present outcome
      rcases futures other with same | ⟨_, pending, _⟩
      · rw [same]
        exact before
      · rw [pending] at before
        cases before
  · intro other still
    change (cancelFuture tasks.queue number).futures[other]? = _ at still
    change (tasks.getters.set number _)[other]? = _
    rcases futures other with same | ⟨_, _, ended⟩
    · rw [getElem?_replace stored]
      split
      · rename_i here
        subst here
        exact absurd (cancelFuture_ne_pending tasks.queue other) (not_not.mpr still)
      · exact sound.untouched other (same ▸ still)
    · rw [ended] at still
      cases still

/-- A resumed task returns only what its future holds. -/
theorem resume (sound : tasks.Sound) {number : Nat} {asked : Bool} {future : GetFuture T}
    {outcome : GetOutcome T} (stored : tasks.getters[number]? = some ⟨asked, none⟩)
    (resolved : tasks.queue.futures[number]? = some future)
    (ended : outcomeOf ⟨asked, none⟩ future = some outcome) :
    Sound { tasks with getters := tasks.getters.set number ⟨asked, some outcome⟩ } := by
  refine ⟨List.length_set.trans sound.getters, sound.idle, sound.different, sound.waiting, sound.pending,
    sound.order, sound.given, sound.once, ?_, ?_, ?_⟩
  · intro other entry present cancelled
    rcases replace_cases present with ⟨rfl, rfl⟩ | ⟨_, present⟩
    · exact sound.asked other ⟨asked, none⟩ stored cancelled
    · exact sound.asked other entry present cancelled
  · intro other entry item present returned
    rcases replace_cases present with ⟨rfl, rfl⟩ | ⟨_, present⟩
    · obtain rfl := Option.some.inj returned
      cases future with
      | result other => cases asked <;> simp_all [outcomeOf]
      | pending => cases ended
      | cancelled => cases ended
      | queueEmpty => cases asked <;> cases ended
    · exact sound.returned other entry item present returned
  · intro other still
    change (tasks.getters.set number _)[other]? = _
    rw [getElem?_replace stored]
    split
    · rename_i same
      rw [same, resolved] at still
      cases still
      cases ended
    · exact sound.untouched other still

theorem step (sound : tasks.Sound) (stepped : tasks.step label = some after) : after.Sound := by
  cases label with
  | put item =>
      obtain rfl := Option.some.inj stepped
      exact sound.put item
  | get =>
      obtain rfl := Option.some.inj stepped
      exact sound.get
  | getNowait =>
      obtain rfl := Option.some.inj stepped
      exact sound.getNowait
  | finish =>
      obtain rfl := Option.some.inj stepped
      exact sound.finish
  | untilItemReady =>
      obtain rfl := Option.some.inj stepped
      exact sound.untilItemReady
  | cancel number =>
      obtain ⟨asked, stored, rfl⟩ := step_cancel stepped
      exact sound.cancel stored rfl
  | resume number =>
      obtain ⟨asked, future, outcome, stored, resolved, ended, rfl⟩ := step_resume stepped
      exact sound.resume stored resolved ended

end Sound

end QueueTasks

end ClamavDbscan
