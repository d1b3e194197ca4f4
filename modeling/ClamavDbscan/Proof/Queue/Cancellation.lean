import ClamavDbscan.Proof.Queue.Conservation

/-
This file decides which runs of the tasks lose no item and break no call of the queue.
-/

namespace ClamavDbscan

open Transition

namespace QueueTasks

variable {T : Type} {tasks after : QueueTasks T} {label : Label T}
  {past : List (QueueTasks T × Label T)} {last : QueueTasks T}

/-- A getter has returned its item, or nobody has asked it to stop. -/
def Delivered (tasks : QueueTasks T) : Prop :=
  ∀ (number : Nat) (item : T) (getter : Getter T),
    tasks.queue.futures[number]? = some (.result item) → tasks.getters[number]? = some getter →
      getter.outcome = some (.returned item) ∨ getter = ⟨false, none⟩

/-- Nobody waits for an item after the end. -/
def Settled (tasks : QueueTasks T) : Prop :=
  tasks.queue.finishedFlag = true → ∀ number : Nat, tasks.queue.futures[number]? ≠ some .pending

/-- A put and the end of the queue meet no cancelled waiter, and no task is cancelled that has got its
item already. -/
def Undisturbed (tasks : QueueTasks T) : Label T → Prop
  | .put _ => tasks.queue.finishedFlag = false → ∀ waiter ∈ tasks.queue.waiters.head?,
      tasks.queue.futures[waiter]? ≠ some .cancelled
  | .finish => tasks.queue.finishedFlag = false → ∀ waiter ∈ tasks.queue.waiters,
      tasks.queue.futures[waiter]? ≠ some .cancelled
  | .cancel number => ∀ item, tasks.queue.futures[number]? ≠ some (.result item)
  | _ => True

/-- This invariant holds as long as no cancellation disturbs the queue. -/
structure Kept (tasks : QueueTasks T) : Prop where
  sound : tasks.Sound
  delivered : tasks.Delivered
  settled : tasks.Settled

/-- Without cancelled waiters every waiter is pending. -/
theorem Sound.waiters_pending (sound : tasks.Sound) (unfinished : tasks.queue.finishedFlag = false)
    {number : Nat} (member : number ∈ tasks.queue.waiters)
    (present : tasks.queue.futures[number]? ≠ some .cancelled) :
    tasks.queue.futures[number]? = some .pending :=
  (sound.waiting unfinished number member).resolve_right present

/-- The end of the queue meets no cancelled waiter, so it fails every waiter. -/
theorem Sound.failWaiters (sound : tasks.Sound) (undisturbed : tasks.Undisturbed .finish)
    (unfinished : tasks.queue.finishedFlag = false) :
    (FinishableQueue.failWaiters tasks.queue.waiters tasks.queue.futures).1 = .ok () ∧
      ∀ number ∈ tasks.queue.waiters,
        (FinishableQueue.failWaiters tasks.queue.waiters tasks.queue.futures).2[number]? = some .queueEmpty :=
  FinishableQueue.failWaiters_pending sound.different fun _ member =>
    sound.waiters_pending unfinished member (undisturbed unfinished _ member)

theorem Delivered.put (delivered : tasks.Delivered) (sound : tasks.Sound) (item : T) :
    (tasks.put item).Delivered := by
  cases tasks.queue.put_cases item with
  | refused _ result =>
      rw [QueueTasks.put, result]
      exact delivered
  | queued _ _ result =>
      rw [QueueTasks.put, result]
      exact delivered
  | gone waiter others _ _ _ result =>
      rw [QueueTasks.put, result]
      exact delivered
  | handed waiter others _ _ pending result =>
      rw [QueueTasks.put, result]
      intro number other getter given stored
      change (tasks.queue.futures.set waiter (.result item))[number]? = _ at given
      rw [getElem?_replace pending] at given
      split at given
      · rename_i same
        have untouched := sound.untouched waiter pending
        exact .inr (Option.some.inj (stored.symm.trans (same ▸ untouched)))
      · exact delivered number other getter given stored

theorem Delivered.get (delivered : tasks.Delivered) (sound : tasks.Sound) : tasks.get.Delivered := by
  cases tasks.queue.get_cases with
  | taken _ _ _ result =>
      rw [QueueTasks.get, result]
      exact delivered
  | refused _ _ result =>
      rw [QueueTasks.get, result]
      exact delivered
  | suspended _ _ result =>
      rw [QueueTasks.get, result]
      intro number item getter given stored
      change (tasks.queue.futures ++ [.pending])[number]? = _ at given
      change (tasks.getters ++ [_])[number]? = _ at stored
      rw [getElem?_snoc] at given stored
      rw [sound.getters] at stored
      split at given
      · cases given
      · rename_i old
        rw [if_neg old] at stored
        exact delivered number item getter given stored

theorem Delivered.getNowait (delivered : tasks.Delivered) : tasks.getNowait.Delivered := by
  unfold QueueTasks.getNowait FinishableQueue.getNowait
  cases tasks.queue.q with
  | nil => exact delivered
  | cons item others => exact delivered

/-- The end of the queue changes nothing but futures that are pending. -/
theorem Sound.finish_futures (sound : tasks.Sound) (number : Nat) :
    tasks.queue.finish.2.futures[number]? = tasks.queue.futures[number]? ∨
      (tasks.queue.futures[number]? = some .pending ∧
        tasks.queue.finish.2.futures[number]? = some .queueEmpty) := by
  have changed := FinishableQueue.failWaiters_futures tasks.queue.waiters tasks.queue.futures number
  cases FinishableQueue.finish_cases sound.idle with
  | again _ result =>
      rw [result]
      exact .inl rfl
  | alone _ _ result =>
      rw [result]
      exact .inl rfl
  | failed futures _ _ outcome result =>
      rw [outcome] at changed
      rw [result]
      exact changed
  | stopped raised futures _ _ outcome result =>
      rw [outcome] at changed
      rw [result]
      exact changed

theorem Delivered.finish (delivered : tasks.Delivered) (sound : tasks.Sound) :
    Delivered { tasks with queue := tasks.queue.finish.2 } := by
  intro number item getter given stored
  change tasks.queue.finish.2.futures[number]? = _ at given
  rcases sound.finish_futures number with same | ⟨_, ended⟩
  · exact delivered number item getter (same ▸ given) stored
  · cases ended.symm.trans given

theorem Delivered.cancel (delivered : tasks.Delivered) {number : Nat} {getter : Getter T}
    (stored : tasks.getters[number]? = some getter)
    (early : ∀ item, tasks.queue.futures[number]? ≠ some (.result item)) :
    (tasks.cancel number getter).Delivered := by
  intro other item entry given present
  change (cancelFuture tasks.queue number).futures[other]? = _ at given
  rcases Sound.cancelFuture_futures tasks.queue number other with same | ⟨_, _, ended⟩
  · rw [same] at given
    rcases replace_cases present with ⟨rfl, _⟩ | ⟨_, present⟩
    · exact absurd given (early item)
    · exact delivered other item entry given present
  · cases ended.symm.trans given

/-- A resumed task that nobody has asked to stop returns its item. -/
theorem Delivered.resume (delivered : tasks.Delivered) {number : Nat} {asked : Bool} {future : GetFuture T}
    {outcome : GetOutcome T} (stored : tasks.getters[number]? = some ⟨asked, none⟩)
    (resolved : tasks.queue.futures[number]? = some future)
    (ended : outcomeOf ⟨asked, none⟩ future = some outcome) :
    Delivered { tasks with getters := tasks.getters.set number ⟨asked, some outcome⟩ } := by
  intro other item entry given present
  rcases replace_cases present with ⟨rfl, rfl⟩ | ⟨_, present⟩
  · change tasks.queue.futures[other]? = _ at given
    obtain rfl := Option.some.inj (resolved.symm.trans given)
    rcases delivered other item _ given stored with returned | waiting
    · cases returned
    · obtain ⟨rfl, -⟩ := Getter.mk.inj waiting
      exact .inl ended.symm
  · exact delivered other item entry given present

theorem settled_of_unfinished (unfinished : tasks.queue.finishedFlag = false) : tasks.Settled :=
  fun finished => absurd (unfinished.symm.trans finished) Bool.false_ne_true

theorem Settled.put (settled : tasks.Settled) (item : T) : (tasks.put item).Settled := by
  cases tasks.queue.put_cases item with
  | refused _ result =>
      rw [QueueTasks.put, result]
      exact settled
  | queued unfinished _ result =>
      rw [QueueTasks.put, result]
      exact settled_of_unfinished unfinished
  | handed _ _ unfinished _ _ result =>
      rw [QueueTasks.put, result]
      exact settled_of_unfinished unfinished
  | gone _ _ unfinished _ _ result =>
      rw [QueueTasks.put, result]
      exact settled_of_unfinished unfinished

theorem Settled.get (settled : tasks.Settled) : tasks.get.Settled := by
  cases tasks.queue.get_cases with
  | taken _ _ _ result =>
      rw [QueueTasks.get, result]
      exact settled
  | refused _ _ result =>
      rw [QueueTasks.get, result]
      exact settled
  | suspended _ unfinished result =>
      rw [QueueTasks.get, result]
      exact settled_of_unfinished unfinished

theorem Settled.getNowait (settled : tasks.Settled) : tasks.getNowait.Settled := by
  unfold QueueTasks.getNowait FinishableQueue.getNowait
  cases tasks.queue.q with
  | nil => exact settled
  | cons item others => exact settled

/-- The end of the queue fails every getter that waits. -/
theorem Kept.finish_fails (kept : tasks.Kept) (undisturbed : tasks.Undisturbed .finish) :
    tasks.queue.finish.1 = .ok () ∧
      ∀ number : Nat, tasks.queue.futures[number]? = some .pending →
        tasks.queue.finish.2.futures[number]? = some .queueEmpty := by
  cases FinishableQueue.finish_cases kept.sound.idle with
  | again finished result =>
      rw [result]
      exact ⟨rfl, fun number pending => absurd pending (kept.settled finished number)⟩
  | alone unfinished alone result =>
      rw [result]
      refine ⟨rfl, ?_⟩
      intro number pending
      have member := kept.sound.pending unfinished number pending
      rw [alone] at member
      contradiction
  | failed futures unfinished _ outcome result =>
      have failed := (kept.sound.failWaiters undisturbed unfinished).2
      rw [outcome] at failed
      rw [result]
      exact ⟨rfl, fun number pending => failed number (kept.sound.pending unfinished number pending)⟩
  | stopped raised futures unfinished _ outcome result =>
      have succeeds := (kept.sound.failWaiters undisturbed unfinished).1
      rw [outcome] at succeeds
      cases succeeds

theorem Kept.finish (kept : tasks.Kept) (undisturbed : tasks.Undisturbed .finish) :
    Settled { tasks with queue := tasks.queue.finish.2 } := by
  intro _ number still
  change tasks.queue.finish.2.futures[number]? = _ at still
  rcases kept.sound.finish_futures number with same | ⟨_, ended⟩
  · have failed := (kept.finish_fails undisturbed).2 number (same.symm.trans still)
    cases failed.symm.trans still
  · cases ended.symm.trans still

theorem Settled.cancel (settled : tasks.Settled) (number : Nat) (getter : Getter T) :
    (tasks.cancel number getter).Settled := by
  intro finished other pending
  change (cancelFuture tasks.queue number).finishedFlag = true at finished
  change (cancelFuture tasks.queue number).futures[other]? = _ at pending
  rw [(Sound.cancelFuture_keeps tasks.queue number).2.2.1] at finished
  rcases Sound.cancelFuture_futures tasks.queue number other with same | ⟨_, _, ended⟩
  · exact settled finished other (same ▸ pending)
  · cases ended.symm.trans pending

theorem Kept.initial : (.initial : QueueTasks T).Kept :=
  ⟨Sound.initial, nofun, nofun⟩

theorem Kept.step (kept : tasks.Kept) (undisturbed : tasks.Undisturbed label)
    (stepped : tasks.step label = some after) : after.Kept := by
  suffices rest : after.Delivered ∧ after.Settled from ⟨kept.sound.step stepped, rest.1, rest.2⟩
  cases label with
  | put item =>
      obtain rfl := Option.some.inj stepped
      exact ⟨kept.delivered.put kept.sound item, kept.settled.put item⟩
  | get =>
      obtain rfl := Option.some.inj stepped
      exact ⟨kept.delivered.get kept.sound, kept.settled.get⟩
  | getNowait =>
      obtain rfl := Option.some.inj stepped
      exact ⟨kept.delivered.getNowait, kept.settled.getNowait⟩
  | finish =>
      obtain rfl := Option.some.inj stepped
      exact ⟨kept.delivered.finish kept.sound, kept.finish undisturbed⟩
  | untilItemReady =>
      obtain rfl := Option.some.inj stepped
      unfold QueueTasks.untilItemReady
      split
      · exact ⟨kept.delivered, kept.settled⟩
      · exact ⟨kept.delivered, kept.settled⟩
  | cancel number =>
      obtain ⟨asked, stored, rfl⟩ := step_cancel stepped
      exact ⟨kept.delivered.cancel stored undisturbed, kept.settled.cancel number _⟩
  | resume number =>
      obtain ⟨asked, future, outcome, stored, resolved, ended, rfl⟩ := step_resume stepped
      exact ⟨kept.delivered.resume stored resolved ended, kept.settled⟩

/-- In a run without disturbance the invariant holds in every state. -/
theorem kept_run (run : Run (system T) past last) (undisturbed : Meets Undisturbed past) :
    Throughout Kept past last := by
  refine run.throughout Undisturbed Kept ?_ ?_ undisturbed
  · rintro _ rfl
    exact Kept.initial
  · exact fun _ _ _ kept met stepped => kept.step met stepped

theorem sound_run (run : Run (system T) past last) : Throughout Sound past last := by
  refine run.always Sound ?_ ?_
  · rintro _ rfl
    exact Sound.initial
  · exact fun _ _ _ sound stepped => sound.step stepped

/-- Only the end of the queue marks it. -/
theorem step_finishedFlag (stepped : tasks.step label = some after)
    (other : label ≠ .finish) : after.queue.finishedFlag = tasks.queue.finishedFlag := by
  cases label with
  | put item =>
      obtain rfl := Option.some.inj stepped
      cases tasks.queue.put_cases item with
      | refused _ result => rw [QueueTasks.put, result]
      | queued _ _ result => rw [QueueTasks.put, result]; rfl
      | handed _ _ _ _ _ result => rw [QueueTasks.put, result]
      | gone _ _ _ _ _ result => rw [QueueTasks.put, result]
  | get =>
      obtain rfl := Option.some.inj stepped
      cases tasks.queue.get_cases with
      | taken _ _ _ result => rw [QueueTasks.get, result]
      | refused _ _ result => rw [QueueTasks.get, result]
      | suspended _ _ result => rw [QueueTasks.get, result]
  | getNowait =>
      obtain rfl := Option.some.inj stepped
      unfold QueueTasks.getNowait FinishableQueue.getNowait
      cases tasks.queue.q <;> rfl
  | finish => contradiction
  | untilItemReady =>
      obtain rfl := Option.some.inj stepped
      unfold QueueTasks.untilItemReady
      split <;> rfl
  | cancel number =>
      obtain ⟨_, _, rfl⟩ := step_cancel stepped
      exact (Sound.cancelFuture_keeps tasks.queue number).2.2.1
  | resume number =>
      obtain ⟨_, _, _, _, _, _, rfl⟩ := step_resume stepped
      rfl

/-- A queue that is marked has been finished before. -/
theorem finished_before (run : Run (system T) past last) (finished : last.queue.finishedFlag = true) :
    ∃ taken ∈ past, taken.2 = .finish := by
  induction run with
  | start begins =>
      rw [begins] at finished
      cases finished
  | @next past state after label earlier stepped ih =>
      by_cases ends : label = .finish
      · exact ⟨(state, label), List.mem_cons_self, ends⟩
      · rw [step_finishedFlag stepped ends] at finished
        obtain ⟨taken, member, ended⟩ := ih finished
        exact ⟨taken, List.mem_cons_of_mem _ member, ended⟩

/-- The items that have been handed out and then the items of the queue are the accepted ones in
order. A handed item is the result of one call, which has returned it or is about to. -/
structure Conserved (tasks : QueueTasks T) : Prop where
  order : tasks.handed.map Prod.fst ++ tasks.queue.q = tasks.accepted
  once : (tasks.handed.filterMap Prod.snd).Nodup
  delivered : ∀ (item : T) (number : Nat), (item, some number) ∈ tasks.handed →
    ∃ getter, tasks.getters[number]? = some getter ∧ (getter.outcome = some (.returned item) ∨
      (getter = ⟨false, none⟩ ∧ tasks.queue.futures[number]? = some (.result item)))
  handed : ∀ (number : Nat) (getter : Getter T) (item : T), tasks.getters[number]? = some getter →
    getter.outcome = some (.returned item) → (item, some number) ∈ tasks.handed

theorem Kept.conserved (kept : tasks.Kept) : tasks.Conserved := by
  refine ⟨kept.sound.order, kept.sound.once, ?_, ?_⟩
  · intro item number member
    have given := (kept.sound.given number item).mpr member
    have inside : number < tasks.getters.length := by
      rw [kept.sound.getters]
      exact (List.getElem?_eq_some_iff.mp given).1
    have stored := List.getElem?_eq_getElem inside
    refine ⟨_, stored, ?_⟩
    rcases kept.delivered number item _ given stored with returned | waiting
    · exact .inl returned
    · exact .inr ⟨waiting, given⟩
  · intro number getter item stored outcome
    exact (kept.sound.given number item).mp (kept.sound.returned number getter item stored outcome)

/-- The items and the waiting tasks are conserved in a run if no item is lost in any of its states, a
put raises only after the end, and the end raises nothing and fails every getter that waits. -/
structure Conserves (past : List (QueueTasks T × Label T)) (last : QueueTasks T) : Prop where
  items : Throughout Conserved past last
  puts : ∀ later state item earlier, past = later ++ (state, .put item) :: earlier →
    (state.queue.put item).1 = .ok () ∨
      ((state.queue.put item).1 = .error .queueFull ∧ ∃ taken ∈ earlier, taken.2 = .finish)
  asserted : ∀ taken ∈ past, taken.2 = .finish → taken.1.queue.finish.1 ≠ .error .assertionError
  finishes : ∀ taken ∈ past, taken.2 = .finish → taken.1.queue.finish.1 = .ok () ∧
    ∀ number : Nat, taken.1.queue.futures[number]? = some .pending →
      taken.1.queue.finish.2.futures[number]? = some .queueEmpty

/-- The assertion never fails, whatever is cancelled. -/
theorem Sound.finish_asserts (sound : tasks.Sound) : tasks.queue.finish.1 ≠ .error .assertionError := by
  intro fails
  cases FinishableQueue.finish_cases sound.idle with
  | again _ result => cases (congrArg Prod.fst result).symm.trans fails
  | alone _ _ result => cases (congrArg Prod.fst result).symm.trans fails
  | failed _ _ _ _ result => cases (congrArg Prod.fst result).symm.trans fails
  | stopped raised futures _ _ outcome result =>
      obtain rfl := Except.error.inj ((congrArg Prod.fst result).symm.trans fails)
      rcases FinishableQueue.failWaiters_raises tasks.queue.waiters tasks.queue.futures with ends | ends
      · cases (congrArg Prod.fst outcome).symm.trans ends
      · cases (congrArg Prod.fst outcome).symm.trans ends

/-- The end of the queue raises at a cancelled waiter. -/
theorem undisturbed_of_finish (succeeds : tasks.queue.finish.1 = .ok ()) (sound : tasks.Sound) :
    tasks.Undisturbed .finish := by
  intro unfinished waiter member cancelled
  have gone : tasks.queue.futures[waiter]? ≠ some .pending := by
    rw [cancelled]
    simp
  have stops := FinishableQueue.failWaiters_gone member gone
  cases FinishableQueue.finish_cases sound.idle with
  | again finished _ => exact absurd (unfinished.symm.trans finished) Bool.false_ne_true
  | alone _ alone _ =>
      rw [alone] at member
      contradiction
  | failed _ _ _ outcome _ => cases (congrArg Prod.fst outcome).symm.trans stops
  | stopped _ _ _ _ _ result => cases (congrArg Prod.fst result).symm.trans succeeds

/-- A put raises at a cancelled waiter. -/
theorem undisturbed_of_put {item : T}
    (accepted : (tasks.queue.put item).1 = .ok () ∨ tasks.queue.finishedFlag = true) :
    tasks.Undisturbed (.put item) := by
  intro unfinished waiter member cancelled
  have accepted := accepted.resolve_right fun finished =>
    absurd (unfinished.symm.trans finished) Bool.false_ne_true
  cases tasks.queue.put_cases item with
  | refused finished _ => exact absurd (unfinished.symm.trans finished) Bool.false_ne_true
  | queued _ alone _ =>
      rw [alone] at member
      contradiction
  | handed first others _ waits pending _ =>
      rw [waits] at member
      obtain rfl := Option.some.inj member
      cases pending.symm.trans cancelled
  | gone _ _ _ _ _ result => cases (congrArg Prod.fst result).symm.trans accepted

/-- A task that is cancelled with its item loses the item. -/
theorem undisturbed_of_cancel {number : Nat} (sound : tasks.Sound)
    (stepped : tasks.step (.cancel number) = some after) (conserved : after.Conserved) :
    tasks.Undisturbed (.cancel number) := by
  intro item given
  have member := (sound.given number item).mp given
  obtain ⟨asked, stored, rfl⟩ := step_cancel stepped
  obtain ⟨getter, present, outcome⟩ := conserved.delivered item number member
  change (tasks.getters.set number _)[number]? = _ at present
  rw [getElem?_replace stored, if_pos rfl] at present
  obtain rfl := Option.some.inj present
  rcases outcome with returned | ⟨waiting, _⟩
  · cases returned
  · cases waiting

/-- A put is accepted or refused after the end. -/
theorem Kept.put_result (kept : tasks.Kept) {item : T} (undisturbed : tasks.Undisturbed (.put item)) :
    (tasks.queue.put item).1 = .ok () ∨
      ((tasks.queue.put item).1 = .error .queueFull ∧ tasks.queue.finishedFlag = true) := by
  cases tasks.queue.put_cases item with
  | refused finished result => exact .inr ⟨congrArg Prod.fst result, finished⟩
  | queued _ _ result => exact .inl (congrArg Prod.fst result)
  | handed _ _ _ _ _ result => exact .inl (congrArg Prod.fst result)
  | gone waiter others unfinished waits gone _ =>
      have first : waiter ∈ tasks.queue.waiters := by
        rw [waits]
        exact List.mem_cons_self
      have present := undisturbed unfinished waiter (by rw [waits]; rfl)
      exact absurd (kept.sound.waiters_pending unfinished first present) gone

theorem conserves_of_undisturbed (run : Run (system T) past last) (undisturbed : Meets Undisturbed past) :
    Conserves past last := by
  have kept := kept_run run undisturbed
  refine ⟨⟨kept.1.conserved, fun taken member => (kept.2 taken member).conserved⟩, ?_, ?_, ?_⟩
  · intro later state item earlier split
    subst split
    have member : (state, .put item) ∈ later ++ (state, .put item) :: earlier :=
      List.mem_append_right _ List.mem_cons_self
    obtain ⟨_, before, _⟩ := run.split
    rcases (kept.2 _ member).put_result (undisturbed _ member) with accepted | ⟨refused, finished⟩
    · exact .inl accepted
    · exact .inr ⟨refused, finished_before before finished⟩
  · exact fun taken member _ => (kept.2 taken member).sound.finish_asserts
  · intro taken member ends
    obtain ⟨state, label⟩ := taken
    obtain rfl : label = .finish := ends
    exact (kept.2 _ member).finish_fails (undisturbed _ member)

/-- The items and the waiting tasks are conserved exactly in the runs without disturbance. -/
theorem conserves_iff (run : Run (system T) past last) :
    Conserves past last ↔ Meets Undisturbed past := by
  refine ⟨?_, conserves_of_undisturbed run⟩
  intro conserves taken member
  have sound := (sound_run run).2 taken member
  obtain ⟨state, label⟩ := taken
  obtain ⟨after, stepped, conserved⟩ := run.after_step conserves.items _ member
  cases label with
  | put item =>
      obtain ⟨later, earlier, split⟩ := List.append_of_mem member
      refine undisturbed_of_put ?_
      rcases conserves.puts later state item earlier split with accepted | ⟨refused, _⟩
      · exact .inl accepted
      · cases finished : state.queue.finishedFlag with
        | true => exact .inr rfl
        | false =>
            cases state.queue.put_cases item with
            | refused marked _ => exact absurd (finished.symm.trans marked) Bool.false_ne_true
            | queued _ _ result => exact .inl (congrArg Prod.fst result)
            | handed _ _ _ _ _ result => exact .inl (congrArg Prod.fst result)
            | gone _ _ _ _ _ result => cases (congrArg Prod.fst result).symm.trans refused
  | finish => exact undisturbed_of_finish (conserves.finishes _ member rfl).1 sound
  | cancel number => exact undisturbed_of_cancel sound stepped conserved
  | get => trivial
  | getNowait => trivial
  | untilItemReady => trivial
  | resume number => trivial

/-- One item goes to a getter and one through the queue, and a getter is cancelled after the end. -/
theorem conserves_both_routes : ∃ past last, Run (system Nat) past last ∧
    last.handed = [(7, some 0), (8, none)] ∧ Conserves past last := by
  have begins : Run (system Nat) [] .initial := .start rfl
  have run := begins.follow
    [.get, .put 7, .put 8, .resume 0, .getNowait, .get, .finish, .cancel 1, .resume 1] rfl
  refine ⟨_, _, run, rfl, (conserves_iff run).mpr ?_⟩
  simp only [meets_cons, meets_nil, and_true]
  refine ⟨trivial, ?_, ?_, trivial, trivial, trivial, ?_, ?_, trivial⟩
  · intro item given
    cases given
  · intro _ waiter member cancelled
    obtain rfl : waiter = 1 := List.mem_singleton.mp member
    cases cancelled
  · intro _ waiter member
    cases member
  · intro _ waiter member cancelled
    obtain rfl := Option.some.inj member
    cases cancelled

/-- A put after a cancellation raises although the queue is not finished. -/
theorem put_meets_cancelled : ∃ past last, Run (system Nat) past last ∧ ¬ Conserves past last := by
  have begins : Run (system Nat) [] .initial := .start rfl
  have run := begins.follow [.get, .cancel 0, .put 7] rfl
  refine ⟨_, _, run, ?_⟩
  intro conserves
  rcases conserves.puts [] _ 7 _ rfl with accepted | ⟨refused, _⟩
  · cases accepted
  · cases refused

end QueueTasks

end ClamavDbscan
