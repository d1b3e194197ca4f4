import ClamavDbscan.Proof.Watch.ReaperSurvival

/-
This file proves that deferred scans are unique and that a cancellation is final.
-/

namespace ClamavDbscan

open Transition

/-- A task sleeps for ten seconds after its creation, and it is woken no earlier. -/
def DeferredTask.Timely (now : LoopTime) (task : DeferredTask) : Prop :=
  match task.phase with
  | .created => task.createdAt ≤ now
  | .sleeping due => task.createdAt + seconds 10 ≤ due
  | .woken => task.createdAt + seconds 10 ≤ now
  | .finished _ => True

/-- A step lets a task as it is, cancels it, wakes it or resumes it. -/
inductive DeferredTask.Advances (now : LoopTime) (q : FinishableQueue Str) (task : DeferredTask) :
    DeferredTask → Prop
  | same : Advances now q task task
  | cancelled : Advances now q task task.cancel
  | fired {after : DeferredTask} : task.fire now = some after → Advances now q task after
  | resumed {after : DeferredTask} {final : FinishableQueue Str} {put : Option Str} :
      task.resume now q = some (after, final, put) → Advances now q task after

namespace DeferredTask

variable {task after : DeferredTask} {now : LoopTime} {q final : FinishableQueue Str}
  {put : Option Str}

/-- A resumed task goes to sleep, ends without a put, or puts its path and ends. -/
theorem resume_cases (resumed : task.resume now q = some (after, final, put)) :
    (task.phase = .created ∧ task.cancelRequested = false ∧ task.path.any isSurrogate = false ∧
        after = { task with phase := .sleeping (now + seconds 10) } ∧ put = none) ∨
      (∃ ending, task.done = false ∧ after = { task with phase := .finished ending } ∧ put = none) ∨
      (task.phase = .woken ∧ task.cancelRequested = false ∧ after = task.printLast ∧ put = some task.path) := by
  obtain ⟨path, phase, cancelRequested, createdAt⟩ := task
  cases phase with
  | created =>
      cases cancelRequested with
      | true =>
          obtain ⟨rfl, _, rfl⟩ := by simpa only [resume, Option.some.injEq, Prod.mk.injEq] using resumed
          exact .inr (.inl ⟨.cancelled, rfl, rfl, rfl⟩)
      | false =>
          simp only [resume] at resumed
          split at resumed
          · obtain ⟨rfl, _, rfl⟩ := by simpa only [Option.some.injEq, Prod.mk.injEq] using resumed
            exact .inr (.inl ⟨.raised, rfl, rfl, rfl⟩)
          · rename_i encodes
            obtain ⟨rfl, _, rfl⟩ := by simpa only [Option.some.injEq, Prod.mk.injEq] using resumed
            exact .inl ⟨rfl, rfl, Bool.eq_false_iff.mpr encodes, rfl, rfl⟩
  | sleeping due =>
      cases cancelRequested with
      | true =>
          obtain ⟨rfl, _, rfl⟩ := by simpa only [resume, Option.some.injEq, Prod.mk.injEq] using resumed
          exact .inr (.inl ⟨_, rfl, rfl, rfl⟩)
      | false => simp [resume] at resumed
  | woken =>
      cases cancelRequested with
      | true =>
          obtain ⟨rfl, _, rfl⟩ := by simpa only [resume, Option.some.injEq, Prod.mk.injEq] using resumed
          exact .inr (.inl ⟨_, rfl, rfl, rfl⟩)
      | false =>
          simp only [resume] at resumed
          split at resumed
          · obtain ⟨rfl, _, rfl⟩ := by simpa only [Option.some.injEq, Prod.mk.injEq] using resumed
            exact .inr (.inr ⟨rfl, rfl, rfl, rfl⟩)
          · obtain ⟨rfl, _, rfl⟩ := by simpa only [Option.some.injEq, Prod.mk.injEq] using resumed
            exact .inr (.inl ⟨.raised, rfl, rfl, rfl⟩)
  | finished ending => simp [resume] at resumed

/-- A finished task is not resumed, and a resumed one keeps its path and its creation time. -/
theorem resume_keeps (resumed : task.resume now q = some (after, final, put)) :
    task.done = false ∧ after.path = task.path ∧ after.createdAt = task.createdAt ∧
      (task.cancelRequested = true → after.done = true) := by
  rcases resume_cases resumed with ⟨created, free, _, rfl, _⟩ | ⟨ending, alive, rfl, _⟩ |
    ⟨woken, free, rfl, _⟩
  · refine ⟨by rw [done, created], rfl, rfl, ?_⟩
    intro asked
    exact absurd (free.symm.trans asked) Bool.false_ne_true
  · exact ⟨alive, rfl, rfl, fun _ => rfl⟩
  · exact ⟨by rw [done, woken], rfl, rfl, fun _ => rfl⟩

/-- Only a woken task without a request puts its path, and it is finished then. -/
theorem resume_put {path : Str} (resumed : task.resume now q = some (after, final, some path)) :
    task.phase = .woken ∧ task.cancelRequested = false ∧ path = task.path ∧ after.done = true := by
  rcases resume_cases resumed with ⟨_, _, _, _, none⟩ | ⟨_, _, _, none⟩ | ⟨woken, free, rfl, same⟩
  · contradiction
  · contradiction
  · exact ⟨woken, free, Option.some.inj same, rfl⟩

/-- The first print of the path ends the task if the path does not encode. -/
theorem resume_surrogate (created : task.phase = .created)
    (surrogate : task.path.any isSurrogate = true) (resumed : task.resume now q = some (after, final, put)) :
    after.done = true ∧ put = none := by
  rcases resume_cases resumed with ⟨_, _, encodes, _⟩ | ⟨ending, _, rfl, none⟩ | ⟨woken, _⟩
  · exact absurd (encodes.symm.trans surrogate) Bool.false_ne_true
  · exact ⟨rfl, none⟩
  · exact absurd (created.symm.trans woken) nofun

/-- The sleep of a resumed task begins now. -/
theorem resume_timely (timely : task.Timely now) (resumed : task.resume now q = some (after, final, put)) :
    after.Timely now := by
  rcases resume_cases resumed with ⟨created, _, _, rfl, _⟩ | ⟨ending, _, rfl, _⟩ | ⟨_, _, rfl, _⟩
  · rw [Timely, created] at timely
    exact Nat.add_le_add_right timely _
  · trivial
  · trivial

theorem cancel_keeps (task : DeferredTask) :
    task.cancel.path = task.path ∧ task.cancel.createdAt = task.createdAt ∧
      task.cancel.phase = task.phase ∧ (task.cancel.done = true ∨ task.cancel.cancelRequested = true) := by
  unfold cancel
  split
  · rename_i finished
    exact ⟨rfl, rfl, rfl, .inl finished⟩
  · exact ⟨rfl, rfl, rfl, .inr rfl⟩

/-- A timer wakes a task at its due time. -/
theorem fire_keeps (fired : task.fire now = some after) :
    task.done = false ∧ after.path = task.path ∧ after.createdAt = task.createdAt ∧
      task.cancelRequested = false ∧ (task.Timely now → after.Timely now) := by
  obtain ⟨path, phase, cancelRequested, createdAt⟩ := task
  cases phase with
  | sleeping due =>
      obtain ⟨⟨reached, free⟩, same⟩ := Option.ite_none_right_eq_some.mp fired
      obtain rfl := Option.some.inj same
      refine ⟨rfl, rfl, rfl, free, ?_⟩
      intro timely
      exact Nat.le_trans timely reached
  | created => simp [fire] at fired
  | woken => simp [fire] at fired
  | finished ending => simp [fire] at fired

/-- A task that goes on after its first step has printed its path. -/
def Printed (task : DeferredTask) : Prop :=
  task.phase = .created ∨ task.done = true ∨ task.path.any isSurrogate = false

/-- A request is kept until the task is finished, and a finished task stays as it is. -/
def Muted (task : DeferredTask) : Prop := task.done = true ∨ task.cancelRequested = true

namespace Advances

theorem keeps (advances : task.Advances now q after) :
    after.path = task.path ∧ after.createdAt = task.createdAt := by
  cases advances with
  | same => exact ⟨rfl, rfl⟩
  | cancelled => exact ⟨task.cancel_keeps.1, task.cancel_keeps.2.1⟩
  | fired woken => exact ⟨(fire_keeps woken).2.1, (fire_keeps woken).2.2.1⟩
  | resumed resumed => exact ⟨(resume_keeps resumed).2.1, (resume_keeps resumed).2.2.1⟩

theorem done (advances : task.Advances now q after) (finished : task.done = true) : after.done = true := by
  cases advances with
  | same => exact finished
  | cancelled =>
      rw [cancel, if_pos finished]
      exact finished
  | fired woken => exact absurd ((fire_keeps woken).1.symm.trans finished) Bool.false_ne_true
  | resumed resumed => exact absurd ((resume_keeps resumed).1.symm.trans finished) Bool.false_ne_true

theorem muted (advances : task.Advances now q after) (muted : task.Muted) : after.Muted := by
  rcases muted with finished | asked
  · exact .inl (advances.done finished)
  · cases advances with
    | same => exact .inr asked
    | cancelled => exact task.cancel_keeps.2.2.2
    | fired woken => exact absurd ((fire_keeps woken).2.2.2.1.symm.trans asked) Bool.false_ne_true
    | resumed resumed => exact .inl ((resume_keeps resumed).2.2.2 asked)

theorem timely (advances : task.Advances now q after) (timely : task.Timely now) : after.Timely now := by
  cases advances with
  | same => exact timely
  | cancelled =>
      obtain ⟨_, created, phase, _⟩ := task.cancel_keeps
      rw [Timely, phase, created]
      exact timely
  | fired woken => exact (fire_keeps woken).2.2.2.2 timely
  | resumed resumed => exact resume_timely timely resumed

theorem printed (advances : task.Advances now q after) (printed : task.Printed) : after.Printed := by
  cases advances with
  | same => exact printed
  | cancelled =>
      obtain ⟨path, _, phase, _⟩ := task.cancel_keeps
      rw [Printed, DeferredTask.done, phase, path]
      exact printed
  | fired woken =>
      obtain ⟨path, _, _, started⟩ := fire_spec woken
      rcases printed with created | finished | encodes
      · exact absurd created started
      · exact absurd ((fire_keeps woken).1.symm.trans finished) Bool.false_ne_true
      · exact .inr (.inr (path ▸ encodes))
  | resumed resumed =>
      rcases resume_cases resumed with ⟨_, _, encodes, rfl, _⟩ | ⟨_, _, rfl, _⟩ | ⟨_, _, rfl, _⟩
      · exact .inr (.inr encodes)
      · exact .inr (.inl rfl)
      · exact .inr (.inl rfl)

end Advances

/-- Time that passes keeps a task timely. -/
theorem Timely.later {later : LoopTime} (timely : task.Timely now) (passed : now ≤ later) :
    task.Timely later := by
  obtain ⟨path, phase, cancelRequested, createdAt⟩ := task
  cases phase with
  | created => exact Nat.le_trans timely passed
  | sleeping due => exact timely
  | woken => exact Nat.le_trans timely passed
  | finished ending => trivial

end DeferredTask

namespace DeferredScanManager

variable {manager : DeferredScanManager}

/-- An unfinished task is the one that is registered for its path. -/
def Unique (manager : DeferredScanManager) : Prop :=
  ∀ number task, manager.tasks[number]? = some task → task.done = false →
    manager.scans.lookup task.path = some number

/-- The two deletions find their keys whenever the pass reaches a task. -/
def NoKeyError : List Nat → DeferredScanManager → Prop
  | [], _ => True
  | task :: others, manager =>
      (∃ filePath, manager.pathsByScan.lookup task = some filePath ∧
          (manager.scans.lookup filePath).isSome = true) ∧
        ∀ after, manager.reapOne task = some after → NoKeyError others after

theorem getElem?_set_advances {now : LoopTime} {q : FinishableQueue Str} {number : Nat}
    {task after : DeferredTask} (stored : manager.tasks[number]? = some task)
    (advances : task.Advances now q after) {other : Nat} {entry : DeferredTask}
    (present : manager.tasks[other]? = some entry) :
    ∃ later, (manager.tasks.set number after)[other]? = some later ∧ entry.Advances now q later := by
  apply exists_replace present .same
  intro same
  subst same
  obtain rfl := Option.some.inj (stored.symm.trans present)
  exact advances

namespace Unique

theorem set {now : LoopTime} {q : FinishableQueue Str} {number : Nat} {task after : DeferredTask}
    (unique : manager.Unique) (stored : manager.tasks[number]? = some task)
    (advances : task.Advances now q after) :
    Unique { manager with tasks := manager.tasks.set number after } := by
  intro other entry present unfinished
  change (manager.tasks.set number after)[other]? = some entry at present
  rcases replace_cases present with ⟨rfl, rfl⟩ | ⟨_, present⟩
  · rw [advances.keeps.1]
    refine unique other task stored (Bool.eq_false_iff.mpr ?_)
    intro finished
    rw [advances.done finished] at unfinished
    contradiction
  · exact unique other entry present unfinished

theorem schedule (unique : manager.Unique) (now : LoopTime) (filePath : Str) :
    (manager.scheduleFileScan now filePath).Unique := by
  rcases manager.schedule_cases now filePath with ⟨⟨_, absent⟩, created⟩ | skipped
  · rw [created]
    intro number task stored unfinished
    rw [Transition.getElem?_snoc] at stored
    split at stored
    · rename_i last
      obtain rfl := Option.some.inj stored
      rw [last]
      exact AList.lookup_insert _
    · have registered := unique number task stored unfinished
      have other : task.path ≠ filePath := by
        intro same
        rw [same, absent] at registered
        contradiction
      change (manager.scans.insert filePath manager.tasks.length).lookup task.path = _
      rw [AList.lookup_insert_ne other]
      exact registered
  · rw [skipped]
    exact unique

theorem cancel (unique : manager.Unique) (filePath : Str) : (manager.cancelFileScan filePath).Unique := by
  rcases manager.cancel_cases filePath with ⟨number, task, _, stored, cancelled⟩ | ⟨_, skipped⟩
  · have advances : task.Advances 0 .initial task.cancel := .cancelled
    rw [cancelled]
    exact unique.set stored advances
  · rw [skipped]
    exact unique

/-- A pass over finished tasks keeps the entries of the others. -/
theorem reapPass (unique : manager.Unique) (books : Bookkeeping manager) {completed : List Nat}
    (finished : ∀ number ∈ completed, manager.doneTask number = true) :
    (manager.reapPass completed).1.Unique := by
  obtain ⟨_, tasks, _, kept, _⟩ := books.reapPass completed
  intro number task stored unfinished
  rw [tasks] at stored
  refine kept task.path number ?_ (unique number task stored unfinished)
  intro member
  have done := finished number member
  rw [doneTask, stored] at done
  exact absurd (unfinished.symm.trans done) Bool.false_ne_true

end Unique

/-- A pass over different registered tasks finds every key. -/
theorem noKeyError (books : Bookkeeping manager) {completed : List Nat} (different : completed.Nodup)
    (registered : ∀ task ∈ completed, manager.Registered task) : NoKeyError completed manager := by
  induction completed generalizing manager with
  | nil => trivial
  | cons number others ih =>
      obtain ⟨absent, rest⟩ := List.nodup_cons.mp different
      obtain ⟨path, found⟩ := registered number List.mem_cons_self
      refine ⟨⟨path, (books.inverse path number).mp found, by rw [found]; rfl⟩, ?_⟩
      intro after reaped
      obtain ⟨afterBooks, _, removed⟩ := books.reapOne reaped
      apply ih afterBooks rest
      intro task member
      obtain ⟨other, held⟩ := registered task (List.mem_cons_of_mem _ member)
      refine ⟨other, (removed other task).mpr ⟨held, ?_⟩⟩
      rintro rfl
      exact absent member

end DeferredScanManager

namespace OnDemand

/-- The handling of this write event creates the task with this number. -/
structure Creates (taken : OnDemand × Label) (number : Nat) (path : Str) : Prop where
  handles : taken.2 = .handle
  event : ∃ event others, taken.1.inbox = event :: others ∧ event.path = path ∧
    event.operation.isWrite = true
  schedules : taken.1.manager.Schedules path
  number : taken.1.manager.tasks.length = number

/-- This task puts its path in the step. -/
def putter : OnDemand × Label → Option (Nat × Str)
  | (state, .resume number) =>
      match state.manager.tasks[number]? with
      | none => none
      | some task =>
          match task.resume state.now state.q with
          | some (_, _, some path) => some (number, path)
          | _ => none
  | _ => none

/-- In a step every task advances, and a new one comes from a write event. -/
structure TasksAdvance (state : OnDemand) (label : Label) (tasks : List DeferredTask) : Prop where
  old : ∀ (number : Nat) (task : DeferredTask), state.manager.tasks[number]? = some task →
    ∃ later, tasks[number]? = some later ∧ task.Advances state.now state.q later
  new : ∀ (number : Nat) (later : DeferredTask), tasks[number]? = some later →
    (∃ task, state.manager.tasks[number]? = some task) ∨
      (Creates (state, label) number later.path ∧ later = ⟨later.path, .created, false, state.now⟩)

variable {state after : OnDemand} {label : Label}

theorem TasksAdvance.same (state : OnDemand) (label : Label) :
    TasksAdvance state label state.manager.tasks :=
  ⟨fun _ task stored => ⟨task, stored, .same⟩, fun _ task stored => .inl ⟨task, stored⟩⟩

theorem TasksAdvance.set {number : Nat} {task next : DeferredTask}
    (stored : state.manager.tasks[number]? = some task)
    (advances : task.Advances state.now state.q next) :
    TasksAdvance state label (state.manager.tasks.set number next) := by
  refine ⟨fun other entry present =>
    DeferredScanManager.getElem?_set_advances stored advances present, ?_⟩
  intro other later present
  have inside := (List.getElem?_eq_some_iff.mp present).1
  rw [List.length_set] at inside
  exact .inl ⟨_, List.getElem?_eq_getElem inside⟩

/-- A cancellation advances one task. -/
theorem TasksAdvance.cancel (state : OnDemand) (label : Label) (filePath : Str) :
    TasksAdvance state label (state.manager.cancelFileScan filePath).tasks := by
  rcases state.manager.cancel_cases filePath with ⟨number, task, _, stored, cancelled⟩ | ⟨_, skipped⟩
  · rw [cancelled]
    exact .set stored .cancelled
  · rw [skipped]
    exact .same state _

theorem TasksAdvance.schedule {event : FileEvent} {others : List FileEvent}
    (inbox : state.inbox = event :: others) (written : event.operation.isWrite = true) :
    TasksAdvance state .handle (state.manager.scheduleFileScan state.now event.path).tasks := by
  rcases state.manager.schedule_cases state.now event.path with ⟨schedules, created⟩ | skipped
  · have tasks : (state.manager.scheduleFileScan state.now event.path).tasks =
        state.manager.tasks ++ [⟨event.path, .created, false, state.now⟩] := by rw [created]
    rw [tasks]
    constructor
    · intro number task stored
      have inside := (List.getElem?_eq_some_iff.mp stored).1
      exact ⟨task, by rw [List.getElem?_append_left inside]; exact stored, .same⟩
    · intro number later present
      rw [Transition.getElem?_snoc] at present
      split at present
      · rename_i last
        obtain rfl := Option.some.inj present
        exact .inr ⟨⟨rfl, ⟨event, others, inbox, rfl, written⟩, schedules, last.symm⟩, rfl⟩
      · exact .inl ⟨later, present⟩
  · rw [skipped]
    exact .same state _

theorem TasksAdvance.handleEvent {event : FileEvent} {others : List FileEvent}
    (inbox : state.inbox = event :: others) :
    TasksAdvance state .handle
      (OnDemand.handleEvent { state with inbox := others } event).manager.tasks := by
  have handled := handleEvent_handled { state with inbox := others } event
  generalize OnDemand.handleEvent { state with inbox := others } event = after at handled ⊢
  cases handled with
  | write written => exact .schedule inbox written
  | remove | raise => exact .cancel state _ event.path
  | skip => exact .same state _

theorem step_tasks (books : Bookkeeping state.manager) (stepped : step state label = some after) :
    TasksAdvance state label after.manager.tasks := by
  cases step_taken stepped with
  | tick elapsed => exact .same state _
  | receive events idle unraised => exact .same state _
  | handle event others inbox => exact .handleEvent inbox
  | fire number task next idle stored fired => exact .set stored (.fired fired)
  | resume number task next q put idle stored resumed => exact .set stored (.resumed resumed)
  | check idle checking => exact .same state _
  | reap completed snapshot waits idle nonempty reported =>
      rw [(books.reapPass completed).2.1]
      exact .same state _
  | take path q idle taken => exact .same state _

/-- This invariant holds in every state of every run. -/
structure Kept (state : OnDemand) : Prop where
  books : Bookkeeping state.manager
  unique : state.manager.Unique
  timely : ∀ (number : Nat) (task : DeferredTask), state.manager.tasks[number]? = some task →
    task.Timely state.now
  snapshot : ∀ snapshot, state.reaper = .waiting snapshot →
    snapshot.Nodup ∧ ∀ task ∈ snapshot, state.manager.Registered task

theorem kept_start (begins : OnDemand.start state) : Kept state := by
  have books := (orderly_start begins).books
  obtain ⟨_, manager, reaper, _⟩ := begins
  refine ⟨books, ?_, ?_, ?_⟩
  · intro number task stored
    rw [manager] at stored
    contradiction
  · intro number task stored
    rw [manager] at stored
    contradiction
  · intro snapshot waits
    rw [reaper] at waits
    contradiction

theorem handleEvent_now (state : OnDemand) (event : FileEvent) :
    (OnDemand.handleEvent state event).now = state.now := by
  have handled := handleEvent_handled state event
  generalize OnDemand.handleEvent state event = after at handled ⊢
  cases handled <;> rfl

theorem now_le (stepped : step state label = some after) : state.now ≤ after.now := by
  cases step_taken stepped with
  | tick elapsed => exact Nat.le_add_right _ _
  | handle event others inbox =>
      exact Nat.le_of_eq (handleEvent_now { state with inbox := others } event).symm
  | receive | fire | resume | check | reap | take => exact Nat.le_refl _

theorem handleEvent_unique {state : OnDemand} (unique : state.manager.Unique) (event : FileEvent) :
    (handleEvent state event).manager.Unique := by
  have handled := handleEvent_handled state event
  generalize handleEvent state event = after at handled ⊢
  cases handled with
  | write => exact unique.schedule state.now event.path
  | remove | raise => exact unique.cancel event.path
  | skip => exact unique

theorem reported_finished {completed snapshot : List Nat} {manager : DeferredScanManager}
    (reported : completed.Perm (snapshot.filter manager.doneTask)) :
    ∀ number ∈ completed, number ∈ snapshot ∧ manager.doneTask number = true :=
  fun _ member => List.mem_filter.mp (reported.mem_iff.mp member)

theorem unique_step (kept : Kept state) (stepped : step state label = some after) :
    after.manager.Unique := by
  cases step_taken stepped with
  | tick elapsed => exact kept.unique
  | receive events idle unraised => exact kept.unique
  | handle event others inbox =>
      have unique : ({ state with inbox := others } : OnDemand).manager.Unique := kept.unique
      exact handleEvent_unique unique event
  | fire number task next idle stored fired =>
      have advances : task.Advances state.now state.q next := .fired fired
      exact kept.unique.set stored advances
  | resume number task next q put idle stored resumed =>
      have advances : task.Advances state.now state.q next := .resumed resumed
      exact kept.unique.set stored advances
  | check idle checking => exact kept.unique
  | reap completed snapshot waits idle nonempty reported =>
      exact kept.unique.reapPass kept.books fun number member =>
        (reported_finished reported number member).2
  | take path q idle taken => exact kept.unique

theorem timely_step (kept : Kept state) (stepped : step state label = some after) (number : Nat)
    (later : DeferredTask) (stored : after.manager.tasks[number]? = some later) :
    later.Timely after.now := by
  have advance := step_tasks kept.books stepped
  have passed : later.Timely state.now := by
    rcases advance.new number later stored with ⟨task, before⟩ | ⟨_, created⟩
    · obtain ⟨other, same, advances⟩ := advance.old number task before
      obtain rfl := Option.some.inj (stored.symm.trans same)
      exact advances.timely (kept.timely number task before)
    · rw [created]
      exact Nat.le_refl _
  exact passed.later (now_le stepped)

theorem kept_step (kept : Kept state) (stepped : step state label = some after) : Kept after := by
  constructor
  · cases step_taken stepped with
    | handle event others inbox =>
        have books : Bookkeeping ({ state with inbox := others } : OnDemand).manager := kept.books
        exact handleEvent_books books event
    | fire number task next idle stored fired =>
        exact kept.books.set stored (DeferredTask.fire_keeps fired).2.1
    | resume number task next q put idle stored resumed =>
        exact kept.books.set stored (DeferredTask.resume_keeps resumed).2.1
    | reap completed snapshot waits idle nonempty reported => exact (kept.books.reapPass completed).1
    | tick | receive | check | take => exact kept.books
  · exact unique_step kept stepped
  · exact timely_step kept stepped
  · exact snapshot_step kept.books kept.snapshot stepped

variable {past later : List (OnDemand × Label)} {last : OnDemand} {number : Nat} {path : Str}

theorem kept_run (run : Run system past last) : Throughout Kept past last :=
  run.always Kept (fun _ begins => kept_start begins) fun _ _ _ kept stepped => kept_step kept stepped

/-- The reaper finds its keys in every pass. -/
theorem noKeyError_step {completed : List Nat} (kept : Kept state)
    (stepped : step state (.reap completed) = some after) :
    DeferredScanManager.NoKeyError completed state.manager := by
  cases step_taken stepped with
  | reap _ snapshot waits idle nonempty reported =>
      obtain ⟨different, registered⟩ := kept.snapshot snapshot waits
      apply DeferredScanManager.noKeyError kept.books (reported.nodup_iff.mpr (different.filter _))
      exact fun task member => registered task (reported_finished reported task member).1

/-- A task puts when it is resumed. -/
theorem putter_resumes (puts : putter (state, label) = some (number, path)) :
    label = .resume number ∧ ∃ task next final, state.manager.tasks[number]? = some task ∧
      task.resume state.now state.q = some (next, final, some path) := by
  cases label with
  | resume other =>
      simp only [putter] at puts
      split at puts
      · contradiction
      · rename_i task stored
        split at puts
        · rename_i next final put resumed
          obtain ⟨rfl, rfl⟩ := Prod.mk.inj (Option.some.inj puts)
          exact ⟨rfl, task, next, final, stored, resumed⟩
        · contradiction
  | tick | receive | handle | fire | check | reap | take => contradiction

/-- A task that puts is woken without a request, and it is finished then. -/
theorem putter_spec (puts : putter (state, label) = some (number, path)) :
    ∃ task, state.manager.tasks[number]? = some task ∧ task.phase = .woken ∧
      task.cancelRequested = false ∧ task.path = path ∧
      ∀ after, step state label = some after →
        ∃ finished, after.manager.tasks[number]? = some finished ∧ finished.done = true := by
  obtain ⟨rfl, task, next, final, stored, resumed⟩ := putter_resumes puts
  obtain ⟨woken, free, same, finished⟩ := DeferredTask.resume_put resumed
  refine ⟨task, stored, woken, free, same.symm, ?_⟩
  intro after stepped
  cases step_taken stepped with
  | resume _ other following q put idle present again =>
      obtain rfl := Option.some.inj (stored.symm.trans present)
      obtain ⟨rfl, _, _⟩ := by simpa only [Option.some.injEq, Prod.mk.injEq] using resumed.symm.trans again
      have inside := (List.getElem?_eq_some_iff.mp stored).1
      exact ⟨next, by simp [inside], finished⟩

/-- Every task has been created by a write event for its path. -/
theorem created_run (run : Run system past last) (number : Nat) (task : DeferredTask)
    (stored : last.manager.tasks[number]? = some task) :
    ∃ creation ∈ past, Creates creation number task.path ∧ creation.1.now = task.createdAt := by
  have kept := kept_run run
  induction run generalizing task with
  | start begins =>
      rw [begins.2.1] at stored
      contradiction
  | @next past state after label earlier stepped ih =>
      rw [throughout_cons] at kept
      have advance := step_tasks kept.2.1.books stepped
      rcases advance.new number task stored with ⟨before, present⟩ | ⟨creates, created⟩
      · obtain ⟨other, same, advances⟩ := advance.old number before present
        obtain rfl := Option.some.inj (stored.symm.trans same)
        obtain ⟨creation, member, creates, time⟩ := ih before present kept.2
        rw [advances.keeps.1, advances.keeps.2]
        exact ⟨creation, List.mem_cons_of_mem _ member, creates, time⟩
      · refine ⟨_, List.mem_cons_self, creates, ?_⟩
        rw [created]

/-- A task that has put is finished. -/
theorem put_finished (run : Run system past last) :
    ∀ taken ∈ past, ∀ number path, putter taken = some (number, path) →
      ∃ task, last.manager.tasks[number]? = some task ∧ task.done = true := by
  have kept := kept_run run
  induction run with
  | start => exact fun _ member => absurd member List.not_mem_nil
  | @next past state after label earlier stepped ih =>
      rw [throughout_cons] at kept
      intro taken member number path puts
      rcases List.mem_cons.mp member with rfl | before
      · obtain ⟨_, _, _, _, _, finished⟩ := putter_spec puts
        exact finished after stepped
      · obtain ⟨task, stored, finished⟩ := ih kept.2 taken before number path puts
        obtain ⟨next, present, advances⟩ := (step_tasks kept.2.1.books stepped).old number task stored
        exact ⟨next, present, advances.done finished⟩

/-- No task puts twice. -/
theorem puts_once (run : Run system past last) : ((observed putter past).map Prod.fst).Nodup := by
  induction run with
  | start => exact List.nodup_nil
  | @next past state after label earlier stepped ih =>
      rw [observed_cons, List.map_append]
      cases puts : putter (state, label) with
      | none => simpa using ih
      | some entry =>
          obtain ⟨number, path⟩ := entry
          rw [Option.toList_some, List.map_singleton]
          refine List.nodup_append'.mpr ⟨ih, List.nodup_singleton _, ?_⟩
          rw [List.disjoint_singleton]
          intro again
          obtain ⟨⟨_, other⟩, member, rfl⟩ := List.mem_map.mp again
          obtain ⟨taken, before, same⟩ := List.mem_filterMap.mp (List.mem_reverse.mp member)
          obtain ⟨task, stored, finished⟩ := put_finished earlier taken before _ _ same
          obtain ⟨woken, present, phase, _⟩ := putter_spec puts
          obtain rfl := Option.some.inj (stored.symm.trans present)
          rw [DeferredTask.done, phase] at finished
          contradiction

/-- A removal cancels the scan of its path, also if it raises afterwards. -/
theorem handleEvent_cancels (state : OnDemand) {event : FileEvent} (removal : event.operation.isRemoval = true)
    (outside : startsWith event.path (text "/tmp") = false) :
    (handleEvent state event).manager = state.manager.cancelFileScan event.path := by
  have handled := handleEvent_handled state event
  generalize handleEvent state event = after at handled ⊢
  cases handled with
  | write written => exact absurd ((Operation.isWrite_of_isRemoval removal).symm.trans written) Bool.false_ne_true
  | remove | raise => rfl
  | skip _ excluded => exact absurd (outside.symm.trans (excluded removal)) Bool.false_ne_true

/-- The removal mutes all tasks of its path. -/
theorem handle_mutes {event : FileEvent} {others : List FileEvent} (kept : Kept state)
    (inbox : state.inbox = event :: others) (removal : event.operation.isRemoval = true)
    (outside : startsWith event.path (text "/tmp") = false) (stepped : step state .handle = some after) :
    ∀ (number : Nat) (task : DeferredTask), after.manager.tasks[number]? = some task →
      task.path = event.path → task.Muted := by
  have cancelled : after.manager = state.manager.cancelFileScan event.path := by
    simp only [step, inbox, Option.some.injEq] at stepped
    exact stepped ▸ handleEvent_cancels { state with inbox := others } removal outside
  intro number task stored named
  rw [cancelled] at stored
  by_contra alive
  have unfinished : task.done = false := by
    simp only [DeferredTask.Muted, not_or, Bool.not_eq_true] at alive
    exact alive.1
  have registered := kept.unique.cancel event.path number task stored unfinished
  rw [named] at registered
  rcases state.manager.cancel_cases event.path with ⟨other, before, found, present, same⟩ |
    ⟨missing, same⟩
  · rw [same] at stored registered
    obtain rfl := Option.some.inj (found.symm.trans registered)
    have inside := (List.getElem?_eq_some_iff.mp present).1
    obtain rfl : before.cancel = task := by simpa [inside] using stored
    exact alive before.cancel_keeps.2.2.2
  · rw [same] at stored registered
    rw [missing number registered] at stored
    contradiction

/-- After the removal the old tasks of the path stay muted, and a new one has been created since. -/
theorem after_removal {removing : OnDemand} {event : FileEvent} {others : List FileEvent}
    (run : Run system (later ++ (removing, .handle) :: past) last)
    (inbox : removing.inbox = event :: others) (removal : event.operation.isRemoval = true)
    (outside : startsWith event.path (text "/tmp") = false) (number : Nat) (task : DeferredTask)
    (stored : last.manager.tasks[number]? = some task) (named : task.path = event.path) :
    task.Muted ∨ ∃ creation ∈ later, Creates creation number event.path := by
  have kept := kept_run run
  induction later generalizing last task with
  | nil =>
      obtain ⟨earlier, stepped⟩ := run.uncons
      rw [List.nil_append, throughout_cons] at kept
      exact .inl (handle_mutes kept.2.1 inbox removal outside stepped number task stored named)
  | cons taken later ih =>
      obtain ⟨state, label⟩ := taken
      obtain ⟨earlier, stepped⟩ := run.uncons
      rw [List.cons_append, throughout_cons] at kept
      have advance := step_tasks kept.2.1.books stepped
      rcases advance.new number task stored with ⟨before, present⟩ | ⟨creates, _⟩
      · obtain ⟨other, same, advances⟩ := advance.old number before present
        obtain rfl := Option.some.inj (stored.symm.trans same)
        rcases ih earlier before present (advances.keeps.1.symm.trans named) kept.2 with muted | created
        · exact .inl (advances.muted muted)
        · obtain ⟨creation, member, creates⟩ := created
          exact .inr ⟨creation, List.mem_cons_of_mem _ member, creates⟩
      · rw [named] at creates
        exact .inr ⟨_, List.mem_cons_self, creates⟩

/-- Deferred scans are unique, each of them puts once after its delay, and a cancellation is final. -/
structure DeferredScans (past : List (OnDemand × Label)) (last : OnDemand) : Prop where
  inverse : Throughout (fun state => ∀ path task, state.manager.scans.lookup path = some task ↔
    state.manager.pathsByScan.lookup task = some path) past last
  deletions : ∀ taken ∈ past, ∀ completed, taken.2 = .reap completed →
    DeferredScanManager.NoKeyError completed taken.1.manager
  unique : Throughout (fun state => state.manager.Unique) past last
  once : ((observed putter past).map Prod.fst).Nodup
  delayed : ∀ later putting earlier number path, past = later ++ putting :: earlier →
    putter putting = some (number, path) →
      ∃ creation ∈ earlier, Creates creation number path ∧
        creation.1.now + seconds 10 ≤ putting.1.now
  final : ∀ later putting between removing earlier event others number,
    past = later ++ putting :: (between ++ removing :: earlier) → removing.2 = .handle →
      removing.1.inbox = event :: others → event.operation.isRemoval = true →
      startsWith event.path (text "/tmp") = false → putter putting = some (number, event.path) →
        ∃ creation ∈ between, Creates creation number event.path

theorem deferred_scans {past : List (OnDemand × Label)} {last : OnDemand} (run : Run system past last) :
    DeferredScans past last := by
  have kept := kept_run run
  constructor
  · exact ⟨kept.1.books.inverse, fun taken member => (kept.2 taken member).books.inverse⟩
  · intro taken member completed reaps
    obtain ⟨state, label⟩ := taken
    obtain rfl : label = .reap completed := reaps
    obtain ⟨after, stepped, _⟩ := run.after_step kept _ member
    exact noKeyError_step (kept.2 _ member) stepped
  · exact ⟨kept.1.unique, fun taken member => (kept.2 taken member).unique⟩
  · exact puts_once run
  · intro later putting earlier number path split puts
    obtain ⟨state, label⟩ := putting
    subst split
    obtain ⟨after, before, _⟩ := run.split
    obtain ⟨task, stored, woken, _, named, _⟩ := putter_spec puts
    obtain ⟨creation, member, creates, time⟩ := created_run before number task stored
    have timely := (kept_run before).1.timely number task stored
    rw [DeferredTask.Timely, woken, ← time] at timely
    rw [named] at creates
    exact ⟨creation, member, creates, timely⟩
  · intro later putting between removing earlier event others number split handles inbox removal
      outside puts
    obtain ⟨state, label⟩ := putting
    obtain ⟨removed, handled⟩ := removing
    obtain rfl : handled = .handle := handles
    subst split
    obtain ⟨after, before, _⟩ := run.split
    obtain ⟨task, stored, woken, free, named, _⟩ := putter_spec puts
    rcases after_removal before inbox removal outside number task stored named with muted | created
    · rcases muted with finished | asked
      · rw [DeferredTask.done, woken] at finished
        contradiction
      · exact absurd (free.symm.trans asked) Bool.false_ne_true
    · exact created

/-- A write, its put after ten seconds, a second write and a removal make a run. -/
theorem deferred_scans_run : ∃ past last, Run system past last ∧ last.history.length = 4 ∧
    DeferredScans past last := by
  have begins : Run system [] atStart := .start ⟨rfl, rfl, rfl, rfl, rfl, rfl⟩
  have run := begins.follow [.receive [⟨text "/a", .closeForWrite⟩], .handle, .resume 0, .check,
    .tick (seconds 10), .fire 0, .resume 0, .reap [0], .receive [⟨text "/a", .moveTo⟩, ⟨text "/a", .remove⟩],
    .handle, .handle, .resume 1] rfl
  exact ⟨_, _, run, rfl, deferred_scans run⟩

end OnDemand

end ClamavDbscan
