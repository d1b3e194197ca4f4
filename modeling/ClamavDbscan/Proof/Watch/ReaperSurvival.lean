import ClamavDbscan.Proof.Watch.Bookkeeping

/-
This file decides when the reaper outlives every task that it waits for.
-/

namespace ClamavDbscan

/-- A task that ends on a request before its first step ends as cancelled, and a task whose path does not encode
ends with an exception. -/
def DeferredTask.Doomed (task : DeferredTask) : Prop :=
  task.phase = .finished .cancelled ∨ (task.phase = .created ∧ task.cancelRequested = true) ∨
    (task.phase ≠ .created ∧ task.path.any isSurrogate = true)

/-- A key of `scans` holds the task. -/
def DeferredScanManager.Registered (manager : DeferredScanManager) (task : Nat) : Prop :=
  ∃ path, manager.scans.lookup path = some task

namespace Bookkeeping

variable {manager : DeferredScanManager}

theorem mem_waited (task : Nat) : task ∈ manager.waited ↔ manager.Registered task := by
  unfold DeferredScanManager.waited DeferredScanManager.Registered
  rw [List.mem_map]
  constructor
  · intro listed
    obtain ⟨⟨path, _⟩, member, rfl⟩ := listed
    exact ⟨path, AList.mem_lookup_iff.mpr member⟩
  · intro registered
    obtain ⟨path, found⟩ := registered
    exact ⟨⟨path, task⟩, AList.mem_lookup_iff.mp found, rfl⟩

/-- The reaper waits for each task once. -/
theorem waited_nodup (books : Bookkeeping manager) : manager.waited.Nodup := by
  unfold DeferredScanManager.waited
  apply List.Nodup.map_on
  · intro first left second right same
    obtain ⟨leftPath, leftTask⟩ := first
    obtain ⟨rightPath, rightTask⟩ := second
    change leftTask = rightTask at same
    subst same
    have paths := books.path_unique (AList.mem_lookup_iff.mpr left) (AList.mem_lookup_iff.mpr right)
    rw [paths]
  · exact manager.scans.nodupKeys.nodup

/-- The reaper removes a registered task that did not end as cancelled and that is not printed in vain. -/
theorem reapOne_isSome (books : Bookkeeping manager) {number : Nat}
    (registered : manager.Registered number)
    (caught : ∀ entry, manager.tasks[number]? = some entry → entry.phase ≠ .finished .cancelled ∧
      (entry.phase = .finished .raised → entry.path.any isSurrogate = false)) :
    (manager.reapOne number).isSome = true := by
  obtain ⟨path, found⟩ := registered
  obtain ⟨entry, stored, rfl⟩ := books.stored path number found
  have named := (books.inverse entry.path number).mp found
  obtain ⟨ending, encodes⟩ := caught entry stored
  unfold DeferredScanManager.reapOne
  rw [stored, named]
  split
  · rename_i cancelled
    exact absurd (Option.some.inj cancelled) ending
  · contradiction
  · rename_i same _
    obtain rfl := Option.some.inj same
    rw [if_neg, found]
    · rfl
    · rintro ⟨raised, surrogate⟩
      rw [encodes (Option.some.inj raised)] at surrogate
      contradiction

/-- A pass over different registered tasks ends normally if each await of them is caught. -/
theorem reapPass_alive {completed : List Nat} (books : Bookkeeping manager)
    (different : completed.Nodup) (registered : ∀ task ∈ completed, manager.Registered task)
    (caught : ∀ task ∈ completed, ∀ entry, manager.tasks[task]? = some entry →
      entry.phase ≠ .finished .cancelled ∧
        (entry.phase = .finished .raised → entry.path.any isSurrogate = false)) :
    (manager.reapPass completed).2 = true := by
  induction completed generalizing manager with
  | nil => rfl
  | cons number others ih =>
      obtain ⟨absent, rest⟩ := List.nodup_cons.mp different
      obtain ⟨after, reaped⟩ := Option.isSome_iff_exists.mp
        (books.reapOne_isSome (registered number (by simp)) (caught number (by simp)))
      obtain ⟨afterBooks, tasks, removed⟩ := books.reapOne reaped
      rw [DeferredScanManager.reapPass, reaped]
      apply ih afterBooks rest
      · intro task member
        obtain ⟨path, found⟩ := registered task (by simp [member])
        refine ⟨path, (removed path task).mpr ⟨found, ?_⟩⟩
        rintro rfl
        exact absent member
      · intro task member entry stored
        rw [tasks] at stored
        exact caught task (by simp [member]) entry stored

end Bookkeeping

namespace OnDemand

/-- A handled removal reaches only tasks that have taken their first step, and a first step can print the path. -/
def EndsCaught (state : OnDemand) : Label → Prop
  | .handle => ∀ event ∈ state.inbox.head?, event.operation.isRemoval = true →
      startsWith event.path (text "/tmp") = false →
        ∀ task ∈ state.manager.scans.lookup event.path, ∀ entry ∈ state.manager.tasks[task]?,
          entry.phase ≠ .created
  | .resume number => ∀ task ∈ state.manager.tasks[number]?, task.phase = .created →
      task.path.any isSurrogate = false
  | _ => True

instance (state : OnDemand) : (label : Label) → Decidable (EndsCaught state label)
  | .handle => inferInstanceAs (Decidable (∀ event ∈ state.inbox.head?, _))
  | .resume number => inferInstanceAs (Decidable (∀ task ∈ state.manager.tasks[number]?, _))
  | .tick _ | .receive _ | .fire _ | .check | .reap _ | .take => isTrue trivial

/-- Under this invariant the reaper can remove every task that its wait reports. -/
structure ReaperSafe (state : OnDemand) : Prop where
  orderly : Orderly state
  alive : state.reaper ≠ .dead
  notDoomed : ∀ task ∈ state.manager.tasks, ¬ task.Doomed
  snapshot : ∀ snapshot, state.reaper = .waiting snapshot →
    snapshot.Nodup ∧ ∀ task ∈ snapshot, state.manager.Registered task

/-- Every completed task of a pass is removed from both dictionaries. -/
def PassRemoves (state : OnDemand) : Label → Prop
  | .reap completed => ∀ after, step state (.reap completed) = some after →
      ∀ task ∈ completed, ¬ after.manager.Registered task ∧
        after.manager.pathsByScan.lookup task = none
  | _ => True

theorem nextWait_alive (manager : DeferredScanManager) : nextWait manager ≠ .dead := by
  unfold nextWait
  split <;> simp

theorem nextWait_snapshot {manager : DeferredScanManager} {snapshot : List Nat}
    (books : Bookkeeping manager) (waits : nextWait manager = .waiting snapshot) :
    snapshot.Nodup ∧ ∀ task ∈ snapshot, manager.Registered task := by
  unfold nextWait at waits
  split at waits
  · contradiction
  · obtain rfl := Reaper.waiting.inj waits
    exact ⟨books.waited_nodup, fun task => (Bookkeeping.mem_waited task).mp⟩

theorem reaperSafe_start {state : OnDemand} (begins : OnDemand.start state) : ReaperSafe state := by
  have orderly := orderly_start begins
  obtain ⟨_, manager, reaper, _⟩ := begins
  refine ⟨orderly, ?_, ?_, ?_⟩
  · simp [reaper]
  · simp [manager, DeferredScanManager.initial]
  · simp [reaper]

theorem handleEvent_reaper (state : OnDemand) (event : FileEvent) :
    (handleEvent state event).reaper = state.reaper := by
  have handled := handleEvent_handled state event
  generalize handleEvent state event = after at handled ⊢
  cases handled <;> rfl

/-- A schedule keeps every registered task. -/
theorem registered_schedule {manager : DeferredScanManager} {task : Nat}
    (registered : manager.Registered task) (now : LoopTime) (filePath : Str) :
    (manager.scheduleFileScan now filePath).Registered task := by
  obtain ⟨path, found⟩ := registered
  refine ⟨path, ?_⟩
  rcases manager.schedule_cases now filePath with ⟨⟨_, absent⟩, created⟩ | skipped
  · have other : path ≠ filePath := by
      rintro rfl
      rw [found] at absent
      contradiction
    rw [created]
    exact (AList.lookup_insert_ne other).trans found
  · rw [skipped]
    exact found

/-- The handling of an event keeps every registered task. -/
theorem handleEvent_registered {state : OnDemand} {task : Nat}
    (registered : state.manager.Registered task) (event : FileEvent) :
    (handleEvent state event).manager.Registered task := by
  have handled := handleEvent_handled state event
  generalize handleEvent state event = after at handled ⊢
  cases handled with
  | write => exact registered_schedule registered state.now event.path
  | remove | raise =>
      obtain ⟨path, found⟩ := registered
      exact ⟨path, by rw [state.manager.cancel_scans event.path]; exact found⟩
  | skip => exact registered

/-- The reaper waits for different registered tasks after every step. -/
theorem snapshot_step {state after : OnDemand} {label : Label} (books : Bookkeeping state.manager)
    (before : ∀ snapshot, state.reaper = .waiting snapshot →
      snapshot.Nodup ∧ ∀ task ∈ snapshot, state.manager.Registered task)
    (stepped : step state label = some after) :
    ∀ snapshot, after.reaper = .waiting snapshot →
      snapshot.Nodup ∧ ∀ task ∈ snapshot, after.manager.Registered task := by
  cases step_taken stepped with
  | handle event others inbox =>
      intro snapshot waits
      rw [handleEvent_reaper] at waits
      obtain ⟨different, registered⟩ := before snapshot waits
      refine ⟨different, ?_⟩
      intro task member
      have held : ({ state with inbox := others } : OnDemand).manager.Registered task :=
        registered task member
      exact handleEvent_registered held event
  | check idle checking =>
      intro snapshot waits
      exact nextWait_snapshot books waits
  | reap completed snapshot waits idle nonempty reported =>
      intro next waitsAgain
      change (if (state.manager.reapPass completed).2 then
        nextWait (state.manager.reapPass completed).1 else .dead) = .waiting next at waitsAgain
      split at waitsAgain
      · exact nextWait_snapshot (books.reapPass completed).1 waitsAgain
      · contradiction
  | tick | receive | fire | resume | take => exact before

/-- The new task of a schedule has not started. -/
theorem notDoomed_schedule {manager : DeferredScanManager} (sound : ∀ task ∈ manager.tasks, ¬ task.Doomed)
    (now : LoopTime) (filePath : Str) :
    ∀ task ∈ (manager.scheduleFileScan now filePath).tasks, ¬ task.Doomed := by
  intro task member
  rcases manager.schedule_cases now filePath with ⟨_, created⟩ | skipped
  · rw [created] at member
    cases List.mem_append.mp member with
    | inl old => exact sound task old
    | inr new =>
        obtain rfl := List.mem_singleton.mp new
        simp [DeferredTask.Doomed]
  · rw [skipped] at member
    exact sound task member

/-- A removal that reaches only started tasks dooms none. -/
theorem notDoomed_cancel {manager : DeferredScanManager} {filePath : Str}
    (sound : ∀ task ∈ manager.tasks, ¬ task.Doomed)
    (started : ∀ task ∈ manager.scans.lookup filePath, ∀ entry ∈ manager.tasks[task]?, entry.phase ≠ .created) :
    ∀ task ∈ (manager.cancelFileScan filePath).tasks, ¬ task.Doomed := by
  intro task member
  rcases manager.cancel_cases filePath with ⟨number, entry, registered, stored, cancelled⟩ | ⟨_, skipped⟩
  · rw [cancelled] at member
    cases List.mem_or_eq_of_mem_set member with
    | inl old => exact sound task old
    | inr new =>
        subst new
        have begun := started number registered entry stored
        have before := sound entry (List.mem_of_getElem? stored)
        unfold DeferredTask.cancel
        split
        · exact before
        · simpa [DeferredTask.Doomed, begun] using before
  · rw [skipped] at member
    exact sound task member

theorem handleEvent_notDoomed {state : OnDemand} {event : FileEvent}
    (sound : ∀ task ∈ state.manager.tasks, ¬ task.Doomed)
    (started : event.operation.isRemoval = true → startsWith event.path (text "/tmp") = false →
      ∀ task ∈ state.manager.scans.lookup event.path, ∀ entry ∈ state.manager.tasks[task]?,
        entry.phase ≠ .created) :
    ∀ task ∈ (handleEvent state event).manager.tasks, ¬ task.Doomed := by
  have handled := handleEvent_handled state event
  generalize handleEvent state event = after at handled ⊢
  cases handled with
  | write => exact notDoomed_schedule sound state.now event.path
  | remove removal outside | raise removal outside => exact notDoomed_cancel sound (started removal outside)
  | skip => exact sound

/-- A pass over completed tasks of a snapshot ends normally. -/
theorem ReaperSafe.pass {state : OnDemand} (safe : ReaperSafe state) {completed snapshot : List Nat}
    (waits : state.reaper = .waiting snapshot)
    (reported : completed.Perm (snapshot.filter state.manager.doneTask)) :
    (state.manager.reapPass completed).2 = true := by
  obtain ⟨different, registered⟩ := safe.snapshot snapshot waits
  apply safe.orderly.books.reapPass_alive
  · exact reported.nodup_iff.mpr (different.filter _)
  · intro task member
    exact registered task (List.mem_filter.mp (reported.mem_iff.mp member)).1
  · intro task _ entry stored
    have sound := safe.notDoomed entry (List.mem_of_getElem? stored)
    refine ⟨fun cancelled => sound (.inl cancelled), ?_⟩
    intro raised
    refine Bool.eq_false_iff.mpr fun surrogate => sound (.inr (.inr ⟨?_, surrogate⟩))
    rw [raised]
    exact nofun

theorem reaperSafe_step {state after : OnDemand} {label : Label} (safe : ReaperSafe state)
    (caught : EndsCaught state label) (stepped : step state label = some after) :
    ReaperSafe after := by
  have orderly := orderly_step safe.orderly stepped
  have registered := snapshot_step safe.orderly.books safe.snapshot stepped
  cases step_taken stepped with
  | tick elapsed => exact ⟨orderly, safe.alive, safe.notDoomed, registered⟩
  | receive events idle unraised => exact ⟨orderly, safe.alive, safe.notDoomed, registered⟩
  | take path q idle taken => exact ⟨orderly, safe.alive, safe.notDoomed, registered⟩
  | handle event others inbox =>
      refine ⟨orderly, ?_, ?_, registered⟩
      · rw [handleEvent_reaper]
        exact safe.alive
      · have sound : ∀ task ∈ ({ state with inbox := others } : OnDemand).manager.tasks,
            ¬ task.Doomed := safe.notDoomed
        apply handleEvent_notDoomed sound
        simpa [EndsCaught, inbox] using caught
  | fire number task next idle stored fired =>
      refine ⟨orderly, safe.alive, ?_, registered⟩
      intro entry member
      cases List.mem_or_eq_of_mem_set member with
      | inl old => exact safe.notDoomed entry old
      | inr new =>
          subst new
          obtain ⟨path, woken, _, started⟩ := DeferredTask.fire_spec fired
          have before := safe.notDoomed task (List.mem_of_getElem? stored)
          simpa [DeferredTask.Doomed, path, woken, started] using fun surrogate =>
            before (.inr (.inr ⟨started, surrogate⟩))
  | resume number task next q put idle stored resumed =>
      refine ⟨orderly, safe.alive, ?_, registered⟩
      obtain ⟨path, _, begun, cancelled, _⟩ := DeferredTask.resume_spec safe.orderly.queueOpen resumed
      have before := safe.notDoomed task (List.mem_of_getElem? stored)
      intro entry member
      cases List.mem_or_eq_of_mem_set member with
      | inl old => exact safe.notDoomed entry old
      | inr new =>
          subst new
          rintro (ended | early | ⟨_, surrogate⟩)
          · exact before (.inr (.inl (cancelled ended)))
          · exact begun early.1
          · rw [path] at surrogate
            by_cases created : task.phase = .created
            · rw [caught task stored created] at surrogate
              contradiction
            · exact before (.inr (.inr ⟨created, surrogate⟩))
  | check idle checking => exact ⟨orderly, nextWait_alive _, safe.notDoomed, registered⟩
  | reap completed snapshot waits idle nonempty reported =>
      obtain ⟨_, tasks, _⟩ := safe.orderly.books.reapPass completed
      refine ⟨orderly, ?_, ?_, registered⟩
      · rw [safe.pass waits reported]
        exact nextWait_alive _
      · rw [tasks]
        exact safe.notDoomed

theorem ReaperSafe.passRemoves {state : OnDemand} (safe : ReaperSafe state) (label : Label) :
    PassRemoves state label := by
  cases label with
  | reap completed =>
      intro after stepped task member
      cases step_taken stepped with
      | reap _ snapshot waits idle nonempty reported =>
          obtain ⟨books, _, _, _, gone⟩ := safe.orderly.books.reapPass completed
          have removed := gone (safe.pass waits reported)
          constructor
          · intro registered
            obtain ⟨path, found⟩ := registered
            exact removed path task member found
          · rw [Option.eq_none_iff_forall_not_mem]
            intro path named
            exact removed path task member ((books.inverse path task).mpr named)
  | tick | receive | handle | fire | resume | check | take => trivial

/-- The reaper survives a run whose removals reach only tasks that have started, and whose tasks print their
paths. -/
theorem reaper_survives {past : List (OnDemand × Label)} {last : OnDemand}
    (run : Transition.Run system past last) (caught : Transition.Meets EndsCaught past) :
    Transition.Throughout (fun state => state.reaper ≠ .dead) past last ∧
      Transition.Meets PassRemoves past := by
  have safe := run.throughout EndsCaught ReaperSafe (fun _ begins => reaperSafe_start begins)
    (fun _ _ _ before allowed stepped => reaperSafe_step before allowed stepped) caught
  constructor
  · exact ⟨safe.1.alive, fun taken member => (safe.2 taken member).alive⟩
  · exact fun taken member => (safe.2 taken member).passRemoves taken.2

/-- A write that is removed after its task has started leaves the reaper alive. -/
theorem reaper_survives_removal : ∃ past last, Transition.Run system past last ∧
    last.manager.scans.lookup (text "/a") = none ∧
    Transition.Throughout (fun state => state.reaper ≠ .dead) past last ∧
      Transition.Meets PassRemoves past := by
  have begins : Transition.Run system [] atStart := .start ⟨rfl, rfl, rfl, rfl, rfl, rfl⟩
  have run := begins.follow [.receive [⟨text "/a", .closeForWrite⟩], .handle, .resume 0, .check,
    .receive [⟨text "/a", .remove⟩], .handle, .resume 0, .reap [0]] rfl
  exact ⟨_, _, run, by decide, reaper_survives run (by decide)⟩

/-- A write and a removal in one message end the reaper. -/
theorem reaper_dies : ¬ ∀ past last, Transition.Run system past last →
    Transition.Throughout (fun state => state.reaper ≠ .dead) past last := by
  intro always
  have begins : Transition.Run system [] atStart := .start ⟨rfl, rfl, rfl, rfl, rfl, rfl⟩
  have run := begins.follow [.receive [⟨text "/a", .closeForWrite⟩, ⟨text "/a", .remove⟩],
    .handle, .handle, .resume 0, .check, .reap [0]] rfl
  exact (always _ _ run).1 rfl

end OnDemand

end ClamavDbscan
