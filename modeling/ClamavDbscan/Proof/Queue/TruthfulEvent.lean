import ClamavDbscan.Proof.Queue.Cancellation
import ClamavDbscan.Proof.Queue.Signal

/-
This file decides when the ready event of a queue tells the truth, with any number of tasks that get,
wait and are cancelled.
-/

namespace ClamavDbscan

open Transition

namespace QueueTasks

variable {T : Type} {tasks after : QueueTasks T} {label : Label T}
  {past : List (QueueTasks T × Label T)} {last : QueueTasks T}

/-- An item can be taken, or no more will come. -/
def Available (tasks : QueueTasks T) : Prop :=
  tasks.queue.q ≠ [] ∨ tasks.queue.finishedFlag = true

def Truthful (tasks : QueueTasks T) : Prop :=
  tasks.queue.readyEvent.value = true ↔ tasks.Available

/-- A suspending call does not take the last item before the end, a call that returns at once does not
take it after the end, and the end of the queue meets no cancelled waiter. -/
def Restoring (tasks : QueueTasks T) : Label T → Prop
  | .get => tasks.queue.q.length = 1 → tasks.queue.finishedFlag = true
  | .getNowait => tasks.queue.q.length = 1 → tasks.queue.finishedFlag = false
  | .finish => tasks.Undisturbed .finish
  | _ => True

theorem Truthful.initial : (.initial : QueueTasks T).Truthful := by
  simp [Truthful, Available, QueueTasks.initial, FinishableQueue.initial, ReadyEvent.initial]

/-- The truth depends on the event, the items and the mark. -/
theorem truthful_congr (event : after.queue.readyEvent = tasks.queue.readyEvent)
    (items : after.queue.q = tasks.queue.q) (mark : after.queue.finishedFlag = tasks.queue.finishedFlag) :
    after.Truthful ↔ tasks.Truthful := by
  rw [Truthful, Truthful, Available, Available, event, items, mark]

/-- A set event is truthful if something is available. -/
theorem truthful_set (event : after.queue.readyEvent.value = true) (available : after.Available) :
    after.Truthful :=
  iff_of_true event available

theorem truthful_put (truthful : tasks.Truthful) (item : T) : (tasks.put item).Truthful := by
  cases tasks.queue.put_cases item with
  | refused _ result =>
      rw [QueueTasks.put, result]
      exact truthful
  | queued _ _ result =>
      rw [QueueTasks.put, result]
      refine truthful_set ReadyEvent.set_value (.inl ?_)
      exact List.append_ne_nil_of_right_ne_nil _ (List.cons_ne_nil _ _)
  | handed _ _ _ _ _ result =>
      rw [QueueTasks.put, result]
      exact truthful
  | gone _ _ _ _ _ result =>
      rw [QueueTasks.put, result]
      exact truthful

/-- A call of `get` that takes the last item leaves the event set. -/
theorem truthful_get_iff (truthful : tasks.Truthful) :
    tasks.get.Truthful ↔ tasks.Restoring .get := by
  cases tasks.queue.get_cases with
  | taken item others first result =>
      have value : tasks.queue.readyEvent.value = true :=
        truthful.mpr (.inl (by rw [first]; exact List.cons_ne_nil _ _))
      rw [QueueTasks.get, result, Restoring, first, Truthful, Available]
      dsimp only
      rw [iff_true_left value]
      cases others with
      | nil => simp
      | cons second others => simp
  | refused empty _ result =>
      refine iff_of_true ?_ fun one => absurd one (by simp [empty])
      rw [QueueTasks.get, result]
      exact truthful
  | suspended empty _ result =>
      refine iff_of_true ?_ fun one => absurd one (by simp [empty])
      rw [QueueTasks.get, result]
      exact truthful

/-- A call of `get_nowait` that takes the last item clears the event. -/
theorem truthful_getNowait_iff (truthful : tasks.Truthful) :
    tasks.getNowait.Truthful ↔ tasks.Restoring .getNowait := by
  unfold QueueTasks.getNowait FinishableQueue.getNowait
  rw [Restoring]
  cases first : tasks.queue.q with
  | nil => exact iff_of_true truthful nofun
  | cons item others =>
      have value : tasks.queue.readyEvent.value = true :=
        truthful.mpr (.inl (by rw [first]; exact List.cons_ne_nil _ _))
      cases others with
      | nil => simp [Truthful, Available, ReadyEvent.clear]
      | cons second others => simp [Truthful, Available, value]

/-- An end of the queue that raises leaves the event clear. -/
theorem truthful_finish_iff (truthful : tasks.Truthful) (sound : tasks.Sound) :
    Truthful { tasks with queue := tasks.queue.finish.2 } ↔ tasks.Restoring .finish := by
  cases FinishableQueue.finish_cases sound.idle with
  | again _ result =>
      refine iff_of_true ?_ (undisturbed_of_finish (congrArg Prod.fst result) sound)
      rw [result]
      exact truthful
  | alone _ _ result =>
      refine iff_of_true ?_ (undisturbed_of_finish (congrArg Prod.fst result) sound)
      rw [result]
      exact truthful_set ReadyEvent.set_value (.inr rfl)
  | failed futures _ _ _ result =>
      refine iff_of_true ?_ (undisturbed_of_finish (congrArg Prod.fst result) sound)
      rw [result]
      exact truthful_set ReadyEvent.set_value (.inr rfl)
  | stopped raised futures unfinished waits outcome result =>
      refine iff_of_false ?_ ?_
      · intro truth
        rw [result] at truth
        have value : tasks.queue.readyEvent.value = true := truth.mpr (.inr rfl)
        rcases truthful.mp value with items | finished
        · exact items (sound.idle.resolve_left waits)
        · exact absurd (unfinished.symm.trans finished) Bool.false_ne_true
      · intro restoring
        cases (congrArg Prod.fst outcome).symm.trans (sound.failWaiters restoring unfinished).1

/-- A step keeps the event truthful exactly when it meets the condition. -/
theorem truthful_step_iff (truthful : tasks.Truthful) (sound : tasks.Sound)
    (stepped : tasks.step label = some after) : after.Truthful ↔ tasks.Restoring label := by
  cases label with
  | put item =>
      obtain rfl := Option.some.inj stepped
      exact iff_of_true (truthful_put truthful item) trivial
  | get =>
      obtain rfl := Option.some.inj stepped
      exact truthful_get_iff truthful
  | getNowait =>
      obtain rfl := Option.some.inj stepped
      exact truthful_getNowait_iff truthful
  | finish =>
      obtain rfl := Option.some.inj stepped
      exact truthful_finish_iff truthful sound
  | untilItemReady =>
      obtain rfl := Option.some.inj stepped
      refine iff_of_true ?_ trivial
      unfold QueueTasks.untilItemReady
      split
      · exact truthful
      · exact truthful
  | cancel number =>
      obtain ⟨_, _, rfl⟩ := step_cancel stepped
      obtain ⟨items, _, mark, event, _⟩ := Sound.cancelFuture_keeps tasks.queue number
      exact iff_of_true ((truthful_congr event items mark).mpr truthful) trivial
  | resume number =>
      obtain ⟨_, _, _, _, _, _, rfl⟩ := step_resume stepped
      exact iff_of_true truthful trivial

/-- A step keeps the event and the waits, sets the event, clears it, or suspends a wait. -/
inductive EventCase (tasks after : QueueTasks T) : Prop
  | same : after.queue.readyEvent = tasks.queue.readyEvent → after.waits = tasks.waits →
      EventCase tasks after
  | set : after.queue.readyEvent = tasks.queue.readyEvent.set → after.waits = tasks.waits →
      after.Available → EventCase tasks after
  | clear : after.queue.readyEvent = tasks.queue.readyEvent.clear → after.waits = tasks.waits →
      EventCase tasks after
  | suspended : tasks.queue.readyEvent.value = false →
      after.queue.readyEvent = { tasks.queue.readyEvent with
        waiting := tasks.queue.readyEvent.waiting ++ [tasks.waits] } →
      after.waits = tasks.waits + 1 → EventCase tasks after

theorem event_cases (sound : tasks.Sound) (stepped : tasks.step label = some after) :
    EventCase tasks after := by
  cases label with
  | put item =>
      obtain rfl := Option.some.inj stepped
      cases tasks.queue.put_cases item with
      | refused _ result => exact .same (by rw [QueueTasks.put, result]) (by rw [QueueTasks.put, result])
      | handed _ _ _ _ _ result =>
          exact .same (by rw [QueueTasks.put, result]) (by rw [QueueTasks.put, result])
      | gone _ _ _ _ _ result =>
          exact .same (by rw [QueueTasks.put, result]) (by rw [QueueTasks.put, result])
      | queued _ _ result =>
          rw [QueueTasks.put, result]
          refine .set rfl rfl (.inl ?_)
          exact List.append_ne_nil_of_right_ne_nil _ (List.cons_ne_nil _ _)
  | get =>
      obtain rfl := Option.some.inj stepped
      cases tasks.queue.get_cases with
      | taken _ _ _ result => exact .same (by rw [QueueTasks.get, result]) (by rw [QueueTasks.get, result])
      | refused _ _ result => exact .same (by rw [QueueTasks.get, result]) (by rw [QueueTasks.get, result])
      | suspended _ _ result => exact .same (by rw [QueueTasks.get, result]) (by rw [QueueTasks.get, result])
  | getNowait =>
      obtain rfl := Option.some.inj stepped
      unfold QueueTasks.getNowait FinishableQueue.getNowait
      cases tasks.queue.q with
      | nil => exact .same rfl rfl
      | cons item others =>
          cases others with
          | nil => exact .clear rfl rfl
          | cons second others => exact .same rfl rfl
  | finish =>
      obtain rfl := Option.some.inj stepped
      cases FinishableQueue.finish_cases sound.idle with
      | again _ result => exact .same (by rw [result]) rfl
      | alone _ _ result =>
          rw [result]
          exact .set rfl rfl (.inr rfl)
      | failed _ _ _ _ result =>
          rw [result]
          exact .set rfl rfl (.inr rfl)
      | stopped _ _ _ _ _ result => exact .same (by rw [result]) rfl
  | untilItemReady =>
      obtain rfl := Option.some.inj stepped
      unfold QueueTasks.untilItemReady
      split
      · exact .same rfl rfl
      · rename_i unset
        exact .suspended (Bool.eq_false_iff.mpr unset) rfl rfl
  | cancel number =>
      obtain ⟨_, _, rfl⟩ := step_cancel stepped
      exact .same (Sound.cancelFuture_keeps tasks.queue number).2.2.2.1 rfl
  | resume number =>
      obtain ⟨_, _, _, _, _, _, rfl⟩ := step_resume stepped
      exact .same rfl rfl

/-- Every wait that has suspended is waiting or woken, and nobody waits for a set event. -/
structure Attended (tasks : QueueTasks T) : Prop where
  orderly : tasks.queue.readyEvent.Orderly tasks.waits
  registered : ∀ number < tasks.waits,
    number ∈ tasks.queue.readyEvent.waiting ++ tasks.queue.readyEvent.resolved

theorem Attended.initial : (.initial : QueueTasks T).Attended :=
  ⟨⟨nofun, nofun⟩, nofun⟩

theorem Attended.step (attended : tasks.Attended) (changes : EventCase tasks after) : after.Attended := by
  obtain ⟨orderly, registered⟩ := attended
  cases changes with
  | same event waits =>
      constructor
      · rw [event, waits]
        exact orderly
      · rw [event, waits]
        exact registered
  | set event waits _ =>
      constructor
      · rw [event, waits]
        exact orderly.set
      · rw [event, waits]
        exact fun number created => ReadyEvent.registered_set (registered number created)
  | clear event waits =>
      constructor
      · rw [event, waits]
        exact orderly.clear
      · rw [event, waits]
        exact registered
  | suspended unset event waits =>
      constructor
      · rw [event, waits]
        refine ⟨fun value => absurd (unset.symm.trans value) Bool.false_ne_true, ?_⟩
        intro number member
        rw [List.append_assoc] at member
        rcases List.mem_append.mp member with waiting | member
        · exact Nat.lt_succ_of_lt (orderly.known number (List.mem_append_left _ waiting))
        · rcases List.mem_cons.mp member with rfl | resolved
          · exact Nat.lt_succ_self _
          · exact Nat.lt_succ_of_lt (orderly.known number (List.mem_append_right _ resolved))
      · rw [event, waits]
        intro number created
        rw [List.append_assoc]
        rcases Nat.lt_succ_iff_lt_or_eq.mp created with old | rfl
        · rcases List.mem_append.mp (registered number old) with waiting | resolved
          · exact List.mem_append_left _ waiting
          · exact List.mem_append_right _ (List.mem_cons_of_mem _ resolved)
        · exact List.mem_append_right _ List.mem_cons_self

/-- A wait is woken only when something is available. -/
theorem woken_available (changes : EventCase tasks after) {number : Nat}
    (woken : number ∈ after.queue.readyEvent.resolved)
    (asleep : number ∉ tasks.queue.readyEvent.resolved) : after.Available := by
  cases changes with
  | same event _ => exact absurd (event ▸ woken) asleep
  | set _ _ available => exact available
  | clear event _ =>
      rw [event] at woken
      exact absurd woken asleep
  | suspended _ event _ =>
      rw [event] at woken
      exact absurd woken asleep

theorem attended_run (run : Run (system T) past last) : Throughout Attended past last := by
  have both := run.always (fun tasks => tasks.Sound ∧ tasks.Attended) ?_ ?_
  · exact ⟨both.1.2, fun taken member => (both.2 taken member).2⟩
  · rintro _ rfl
    exact ⟨Sound.initial, Attended.initial⟩
  · rintro _ _ _ ⟨sound, attended⟩ stepped
    exact ⟨sound.step stepped, attended.step (event_cases sound stepped)⟩

/-- The event is truthful in every state exactly if every step meets the condition. -/
theorem truthful_run_iff (run : Run (system T) past last) :
    Throughout Truthful past last ↔ Meets Restoring past := by
  have sound := sound_run run
  constructor
  · intro truthful taken member
    obtain ⟨after, stepped, truth⟩ := run.after_step truthful taken member
    exact (truthful_step_iff (truthful.2 taken member) (sound.2 taken member) stepped).mp truth
  · intro restoring
    induction run with
    | start begins =>
        obtain rfl := begins
        exact ⟨Truthful.initial, by simp⟩
    | next earlier stepped ih =>
        rw [throughout_cons] at sound
        rw [meets_cons] at restoring
        have before := ih sound.2 restoring.2
        rw [throughout_cons]
        exact ⟨(truthful_step_iff before.1 sound.2.1 stepped).mpr restoring.1, before⟩

/-- The event is set exactly when something is available. A wait goes on at once exactly then, is
woken only then, and does not sleep on. -/
structure TellsTruth (past : List (QueueTasks T × Label T)) (last : QueueTasks T) : Prop where
  event : Throughout Truthful past last
  immediate : ∀ taken ∈ past, taken.2 = .untilItemReady →
    (taken.1.untilItemReady = taken.1 ↔ taken.1.Available)
  woken : ∀ taken ∈ past, ∀ after, taken.1.step taken.2 = some after →
    ∀ number ∈ after.queue.readyEvent.resolved,
      number ∉ taken.1.queue.readyEvent.resolved → after.Available
  awake : Throughout (fun tasks => tasks.Available →
    ∀ number < tasks.waits, number ∈ tasks.queue.readyEvent.resolved) past last

/-- A wait for a clear event suspends. -/
theorem untilItemReady_eq_iff : tasks.untilItemReady = tasks ↔ tasks.queue.readyEvent.value = true := by
  unfold QueueTasks.untilItemReady
  split
  · rename_i value
    exact iff_of_true rfl value
  · rename_i unset
    refine iff_of_false ?_ unset
    intro same
    exact absurd (congrArg QueueTasks.waits same) (Nat.succ_ne_self _)

/-- Nobody sleeps while a truthful event announces something. -/
theorem Attended.awake (attended : tasks.Attended) (truthful : tasks.Truthful)
    (available : tasks.Available) (number : Nat) (created : number < tasks.waits) :
    number ∈ tasks.queue.readyEvent.resolved := by
  have nobody := attended.orderly.woken (truthful.mpr available)
  have registered := attended.registered number created
  rwa [nobody] at registered

/-- The event tells the truth exactly in the runs whose steps restore it. -/
theorem tellsTruth_iff (run : Run (system T) past last) : TellsTruth past last ↔ Meets Restoring past := by
  constructor
  · exact fun tells => (truthful_run_iff run).mp tells.event
  · intro restoring
    have truthful := (truthful_run_iff run).mpr restoring
    have sound := sound_run run
    have attended := attended_run run
    refine ⟨truthful, ?_, ?_, ?_⟩
    · intro taken member _
      exact untilItemReady_eq_iff.trans (truthful.2 taken member)
    · intro taken member after stepped number woken asleep
      exact woken_available (event_cases (sound.2 taken member) stepped) woken asleep
    · exact ⟨attended.1.awake truthful.1,
        fun taken member => (attended.2 taken member).awake (truthful.2 taken member)⟩

/-- An item is put, waited for and taken, and the queue is drained after its end. -/
theorem tellsTruth_drained : ∃ past last, Run (system Nat) past last ∧
    last.queue.readyEvent = ⟨true, [], [0, 1]⟩ ∧ TellsTruth past last := by
  have begins : Run (system Nat) [] .initial := .start rfl
  have run := begins.follow
    [.untilItemReady, .put 7, .getNowait, .untilItemReady, .put 8, .finish, .get, .untilItemReady] rfl
  refine ⟨_, _, run, rfl, (tellsTruth_iff run).mpr ?_⟩
  simp only [meets_cons, meets_nil, and_true]
  refine ⟨trivial, fun _ => rfl, ?_, trivial, trivial, fun _ => rfl, trivial, trivial⟩
  intro _ waiter member
  cases member

/-- A drained queue that is finished clears the event. -/
theorem drained_blocks : ∃ past last, Run (system Nat) past last ∧ ¬ TellsTruth past last := by
  have begins : Run (system Nat) [] .initial := .start rfl
  have run := begins.follow [.put 7, .finish, .getNowait] rfl
  refine ⟨_, _, run, ?_⟩
  intro tells
  exact absurd (tells.event.1.mpr (.inr rfl)) Bool.false_ne_true

end QueueTasks

end ClamavDbscan
