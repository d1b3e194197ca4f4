import ClamavDbscan.Construction.Watch.OnDemandWatcher

/-
This file proves the bookkeeping of the deferred scans in every state.
-/

namespace ClamavDbscan

/-- The handling of this event ends the watcher. -/
def FileEvent.Raises (event : FileEvent) : Prop :=
  event.operation.isRemoval = true ∧ startsWith event.path (text "/tmp") = false ∧
    event.path.any isSurrogate = true

instance (event : FileEvent) : Decidable event.Raises := inferInstanceAs (Decidable (_ ∧ _))

/-- The handling of an event schedules a scan, cancels one with or without its row, or only sees the event. -/
inductive OnDemand.Handled (state : OnDemand) (event : FileEvent) : OnDemand → Prop
  | write (written : event.operation.isWrite = true) :
      Handled state event { state with
        history := .received event :: state.history
        manager := state.manager.scheduleFileScan state.now event.path }
  | remove (removal : event.operation.isRemoval = true)
      (outside : startsWith event.path (text "/tmp") = false)
      (encodes : event.path.any isSurrogate = false) :
      Handled state event { state with
        history := .received event :: state.history
        manager := state.manager.cancelFileScan event.path
        files := Function.update state.files event.path none }
  | raise (removal : event.operation.isRemoval = true)
      (outside : startsWith event.path (text "/tmp") = false)
      (surrogate : event.path.any isSurrogate = true) :
      Handled state event { state with
        inbox := []
        history := state.inbox.reverse.map Observation.received ++ .received event :: state.history
        manager := state.manager.cancelFileScan event.path
        raised := some ⟨.unicodeEncodeError, event.path⟩ }
  | skip (other : event.operation.isWrite = false)
      (excluded : event.operation.isRemoval = true → startsWith event.path (text "/tmp") = true) :
      Handled state event { state with history := .received event :: state.history }

theorem Operation.isWrite_of_isRemoval {operation : Operation} (removal : operation.isRemoval = true) :
    operation.isWrite = false := by
  cases operation <;> first | rfl | contradiction

theorem OnDemand.handleEvent_handled (state : OnDemand) (event : FileEvent) :
    OnDemand.Handled state event (state.handleEvent event) := by
  unfold handleEvent
  split
  · rename_i written
    exact .write written
  · rename_i other
    have other := Bool.eq_false_iff.mpr other
    split
    · rename_i removal
      split
      · rename_i inside
        exact .skip other fun _ => inside
      · rename_i outside
        have outside := Bool.eq_false_iff.mpr outside
        unfold ClamAVDB.removeFile
        by_cases surrogate : event.path.any isSurrogate = true
        · simp only [surrogate, if_true]
          exact .raise removal outside surrogate
        · simp only [surrogate]
          exact .remove removal outside (Bool.eq_false_iff.mpr surrogate)
    · rename_i kept
      exact .skip other fun removal => absurd removal kept

/-- The handling has no other effect. -/
theorem OnDemand.Handled.eq {state after : OnDemand} {event : FileEvent}
    (handled : OnDemand.Handled state event after) : state.handleEvent event = after := by
  cases handled with
  | write written => simp [handleEvent, written]
  | remove removal outside encodes =>
      simp [handleEvent, Operation.isWrite_of_isRemoval removal, removal, outside, ClamAVDB.removeFile, encodes]
  | raise removal outside surrogate =>
      simp [handleEvent, Operation.isWrite_of_isRemoval removal, removal, outside, ClamAVDB.removeFile, surrogate]
  | skip other excluded =>
      cases removal : event.operation.isRemoval with
      | false => simp [handleEvent, other, removal]
      | true => simp [handleEvent, other, removal, excluded removal]

/-- These are the effects of the event loop, one for each label. -/
inductive OnDemand.Taken (state : OnDemand) : OnDemand.Label → OnDemand → Prop
  | tick (elapsed : Nat) : Taken state (.tick elapsed) { state with now := state.now + elapsed }
  | receive (events : List FileEvent) (idle : state.inbox = []) (unraised : state.raised = none) :
      Taken state (.receive events) { state with inbox := events }
  | handle (event : FileEvent) (others : List FileEvent) (inbox : state.inbox = event :: others) :
      Taken state .handle (OnDemand.handleEvent { state with inbox := others } event)
  | fire (number : Nat) (task after : DeferredTask) (idle : state.inbox = [])
      (stored : state.manager.tasks[number]? = some task)
      (fired : task.fire state.now = some after) :
      Taken state (.fire number) { state with
        manager := { state.manager with tasks := state.manager.tasks.set number after } }
  | resume (number : Nat) (task after : DeferredTask) (q : FinishableQueue Str) (put : Option Str)
      (idle : state.inbox = []) (stored : state.manager.tasks[number]? = some task)
      (resumed : task.resume state.now state.q = some (after, q, put)) :
      Taken state (.resume number) { state with
        manager := { state.manager with tasks := state.manager.tasks.set number after }
        q := q
        history := (put.map Observation.put).toList ++ state.history }
  | check (idle : state.inbox = []) (checking : state.reaper = .checking) :
      Taken state .check { state with reaper := OnDemand.nextWait state.manager }
  | reap (completed snapshot : List Nat) (waits : state.reaper = .waiting snapshot)
      (idle : state.inbox = []) (nonempty : completed ≠ [])
      (reported : completed.Perm (snapshot.filter state.manager.doneTask)) :
      Taken state (.reap completed) { state with
        manager := (state.manager.reapPass completed).1
        reaper := if (state.manager.reapPass completed).2 then
          OnDemand.nextWait (state.manager.reapPass completed).1 else .dead }
  | take (path : Str) (q : FinishableQueue Str) (idle : state.inbox = [])
      (taken : state.q.getNowait = (.ok path, q)) : Taken state .take { state with q := q }

theorem OnDemand.step_taken {state after : OnDemand} {label : OnDemand.Label}
    (stepped : OnDemand.step state label = some after) : OnDemand.Taken state label after := by
  cases label with
  | tick elapsed =>
      obtain rfl := Option.some.inj stepped
      exact .tick elapsed
  | receive events =>
      obtain ⟨⟨idle, unraised⟩, same⟩ := Option.ite_none_right_eq_some.mp stepped
      obtain rfl := Option.some.inj same
      exact .receive events idle unraised
  | handle =>
      cases inbox : state.inbox with
      | nil => simp [step, inbox] at stepped
      | cons event others =>
          simp only [step, inbox, Option.some.injEq] at stepped
          subst stepped
          exact .handle event others inbox
  | fire number =>
      obtain ⟨idle, same⟩ := Option.ite_none_right_eq_some.mp stepped
      cases stored : state.manager.tasks[number]? with
      | none => simp [stored] at same
      | some task =>
          simp only [stored, Option.map_eq_some_iff] at same
          obtain ⟨next, fired, rfl⟩ := same
          exact .fire number task next idle stored fired
  | resume number =>
      obtain ⟨idle, same⟩ := Option.ite_none_right_eq_some.mp stepped
      cases stored : state.manager.tasks[number]? with
      | none => simp [stored] at same
      | some task =>
          simp only [stored, Option.map_eq_some_iff] at same
          obtain ⟨⟨next, q, put⟩, resumed, rfl⟩ := same
          exact .resume number task next q put idle stored resumed
  | check =>
      obtain ⟨⟨idle, checking⟩, same⟩ := Option.ite_none_right_eq_some.mp stepped
      obtain rfl := Option.some.inj same
      exact .check idle checking
  | reap completed =>
      cases waits : state.reaper with
      | checking => simp [step, waits] at stepped
      | dead => simp [step, waits] at stepped
      | waiting snapshot =>
          simp only [step, waits] at stepped
          obtain ⟨⟨idle, nonempty, reported⟩, same⟩ := Option.ite_none_right_eq_some.mp stepped
          obtain rfl := Option.some.inj same
          exact .reap completed snapshot waits idle nonempty reported
  | take =>
      obtain ⟨idle, same⟩ := Option.ite_none_right_eq_some.mp stepped
      cases taken : state.q.getNowait with
      | mk result q =>
          cases result with
          | error raised => simp [taken] at same
          | ok path =>
              simp only [taken, Option.some.injEq] at same
              subst same
              exact .take path q idle taken

namespace DeferredScanManager

/-- A path outside of `/tmp` gets a task if it has none. -/
def Schedules (manager : DeferredScanManager) (filePath : Str) : Prop :=
  startsWith filePath (text "/tmp") = false ∧ manager.scans.lookup filePath = none

theorem schedule_cases (manager : DeferredScanManager) (now : LoopTime) (filePath : Str) :
    (manager.Schedules filePath ∧ manager.scheduleFileScan now filePath =
        { scans := manager.scans.insert filePath manager.tasks.length
          pathsByScan := manager.pathsByScan.insert manager.tasks.length filePath
          tasks := manager.tasks ++ [⟨filePath, .created, false, now⟩] }) ∨
      manager.scheduleFileScan now filePath = manager := by
  unfold scheduleFileScan
  split
  · exact .inr rfl
  · rename_i outside
    split
    · exact .inr rfl
    · rename_i absent
      exact .inl ⟨⟨Bool.eq_false_iff.mpr outside, by simpa using absent⟩, rfl⟩

theorem cancel_cases (manager : DeferredScanManager) (filePath : Str) :
    (∃ number task, manager.scans.lookup filePath = some number ∧ manager.tasks[number]? = some task ∧
        manager.cancelFileScan filePath =
          { manager with tasks := manager.tasks.set number task.cancel }) ∨
      ((∀ number, manager.scans.lookup filePath = some number → manager.tasks[number]? = none) ∧
        manager.cancelFileScan filePath = manager) := by
  unfold cancelFileScan
  split
  · rename_i missing
    exact .inr ⟨fun number found => absurd (missing.symm.trans found) nofun, rfl⟩
  · rename_i number found
    split
    · rename_i missing
      refine .inr ⟨?_, rfl⟩
      intro other registered
      rw [← Option.some.inj (found.symm.trans registered)]
      exact missing
    · rename_i task stored
      exact .inl ⟨number, task, found, stored, rfl⟩

theorem cancel_scans (manager : DeferredScanManager) (filePath : Str) :
    (manager.cancelFileScan filePath).scans = manager.scans := by
  rcases manager.cancel_cases filePath with ⟨_, _, _, _, cancelled⟩ | ⟨_, skipped⟩
  · rw [cancelled]
  · rw [skipped]

end DeferredScanManager

/-- The two dictionaries are inverse, and every key names a stored task outside `/tmp`. -/
structure Bookkeeping (manager : DeferredScanManager) : Prop where
  inverse : ∀ path task,
    manager.scans.lookup path = some task ↔ manager.pathsByScan.lookup task = some path
  stored : ∀ path task, manager.scans.lookup path = some task →
    ∃ entry, manager.tasks[task]? = some entry ∧ entry.path = path
  outside : ∀ path task, manager.scans.lookup path = some task →
    startsWith path (text "/tmp") = false

namespace Bookkeeping

variable {manager : DeferredScanManager}

theorem initial : Bookkeeping .initial := by
  refine ⟨?_, ?_, ?_⟩ <;> simp [DeferredScanManager.initial]

/-- A task belongs to one path. -/
theorem path_unique (books : Bookkeeping manager) {first second : Str} {task : Nat}
    (left : manager.scans.lookup first = some task)
    (right : manager.scans.lookup second = some task) : first = second := by
  rw [books.inverse] at left right
  exact Option.some.inj (left.symm.trans right)

/-- No key holds a task that is not created yet. -/
theorem fresh_number (books : Bookkeeping manager) (path : Str) :
    manager.scans.lookup path ≠ some manager.tasks.length := by
  intro found
  obtain ⟨entry, stored, _⟩ := books.stored path _ found
  simp at stored

/-- An update of one task that keeps its path keeps the bookkeeping. -/
theorem set (books : Bookkeeping manager) {number : Nat} {task after : DeferredTask}
    (stored : manager.tasks[number]? = some task) (path : after.path = task.path) :
    Bookkeeping { manager with tasks := manager.tasks.set number after } := by
  refine ⟨books.inverse, ?_, books.outside⟩
  intro other index found
  obtain ⟨entry, present, named⟩ := books.stored other index found
  apply Transition.exists_replace present named
  intro same
  subst same
  rw [path, ← named, Option.some.inj (stored.symm.trans present)]

theorem schedule (books : Bookkeeping manager) (now : LoopTime) (filePath : Str) :
    Bookkeeping (manager.scheduleFileScan now filePath) := by
  unfold DeferredScanManager.scheduleFileScan
  split
  · exact books
  · rename_i outside
    split
    · exact books
    · rename_i absent
      have missing : manager.scans.lookup filePath = none := by simpa using absent
      refine ⟨?_, ?_, ?_⟩
      · intro path task
        by_cases named : path = filePath <;> by_cases numbered : task = manager.tasks.length
        · subst path task
          simp
        · subst path
          rw [AList.lookup_insert, AList.lookup_insert_ne numbered, ← books.inverse, missing]
          simp [Ne.symm numbered]
        · subst task
          rw [AList.lookup_insert_ne named, AList.lookup_insert]
          simp [books.fresh_number path, Ne.symm named]
        · rw [AList.lookup_insert_ne named, AList.lookup_insert_ne numbered]
          exact books.inverse path task
      · intro path task found
        by_cases named : path = filePath
        · subst path
          rw [AList.lookup_insert, Option.some.injEq] at found
          subst task
          exact ⟨⟨filePath, .created, false, now⟩, by simp, rfl⟩
        · rw [AList.lookup_insert_ne named] at found
          obtain ⟨entry, present, same⟩ := books.stored path task found
          have inside := (List.getElem?_eq_some_iff.mp present).1
          exact ⟨entry, by rw [List.getElem?_append_left inside]; exact present, same⟩
      · intro path task found
        by_cases named : path = filePath
        · subst path
          exact Bool.eq_false_iff.mpr outside
        · rw [AList.lookup_insert_ne named] at found
          exact books.outside path task found

theorem cancel (books : Bookkeeping manager) (filePath : Str) :
    Bookkeeping (manager.cancelFileScan filePath) := by
  unfold DeferredScanManager.cancelFileScan
  split
  · exact books
  · split
    · exact books
    · rename_i number found task stored
      exact books.set stored (by unfold DeferredTask.cancel; split <;> rfl)

/-- One deletion of the reaper removes exactly the entries of its task. -/
theorem reapOne (books : Bookkeeping manager) {number : Nat} {after : DeferredScanManager}
    (reaped : manager.reapOne number = some after) :
    Bookkeeping after ∧ after.tasks = manager.tasks ∧
      ∀ path task, after.scans.lookup path = some task ↔
        manager.scans.lookup path = some task ∧ task ≠ number := by
  unfold DeferredScanManager.reapOne at reaped
  split at reaped
  · contradiction
  · contradiction
  · rename_i filePath registered _
    obtain ⟨_, kept⟩ := Option.ite_none_left_eq_some.mp reaped
    obtain ⟨_, same⟩ := Option.ite_none_right_eq_some.mp kept
    obtain rfl := Option.some.inj same
    have held := (books.inverse filePath number).mpr registered
    have scans : ∀ path task, (manager.scans.erase filePath).lookup path = some task ↔
        manager.scans.lookup path = some task ∧ task ≠ number := by
      intro path task
      by_cases named : path = filePath
      · subst path
        rw [AList.lookup_erase, held]
        simp only [reduceCtorEq, false_iff, not_and, not_not, Option.some.injEq]
        exact Eq.symm
      · rw [AList.lookup_erase_ne named, iff_self_and]
        rintro found rfl
        exact named (books.path_unique found held)
    refine ⟨⟨?_, ?_, ?_⟩, rfl, scans⟩
    · intro path task
      rw [scans]
      by_cases numbered : task = number
      · subst task
        simp [AList.lookup_erase]
      · rw [AList.lookup_erase_ne numbered, ← books.inverse]
        simp [numbered]
    · intro path task found
      exact books.stored path task ((scans path task).mp found).1
    · intro path task found
      exact books.outside path task ((scans path task).mp found).1

/-- A pass that ends early has still only removed entries of completed tasks. -/
theorem reapPass (books : Bookkeeping manager) (completed : List Nat) :
    Bookkeeping (manager.reapPass completed).1 ∧
      (manager.reapPass completed).1.tasks = manager.tasks ∧
      (∀ path task, (manager.reapPass completed).1.scans.lookup path = some task →
        manager.scans.lookup path = some task) ∧
      (∀ path task, task ∉ completed → manager.scans.lookup path = some task →
        (manager.reapPass completed).1.scans.lookup path = some task) ∧
      ((manager.reapPass completed).2 = true → ∀ path task, task ∈ completed →
        (manager.reapPass completed).1.scans.lookup path ≠ some task) := by
  induction completed generalizing manager with
  | nil => simp [DeferredScanManager.reapPass, books]
  | cons number others ih =>
      rw [DeferredScanManager.reapPass]
      cases reaped : manager.reapOne number with
      | none => simp [books]
      | some after =>
          obtain ⟨afterBooks, tasks, removed⟩ := books.reapOne reaped
          obtain ⟨finalBooks, finalTasks, fewer, kept, gone⟩ := ih afterBooks
          refine ⟨finalBooks, finalTasks.trans tasks, ?_, ?_, ?_⟩
          · intro path task found
            exact ((removed path task).mp (fewer path task found)).1
          · intro path task absent found
            rw [List.mem_cons, not_or] at absent
            exact kept path task absent.2 ((removed path task).mpr ⟨found, absent.1⟩)
          · intro alive path task member found
            rcases List.mem_cons.mp member with rfl | member
            · exact ((removed path task).mp (fewer path task found)).2 rfl
            · exact gone alive path task member found

end Bookkeeping

/-- No step of the program finishes the queue or waits in its `get`. -/
def QueueOpen (q : FinishableQueue Str) : Prop := q.finishedFlag = false ∧ q.waiters = []

theorem QueueOpen.put {q : FinishableQueue Str} (isOpen : QueueOpen q) (path : Str) :
    ∃ after, q.put path = (.ok (), after) ∧ QueueOpen after := by
  refine ⟨{ q with q := q.q ++ [path] }.markReady, ?_, isOpen⟩
  simp [FinishableQueue.put, isOpen.1, isOpen.2]

theorem QueueOpen.getNowait {q after : FinishableQueue Str} {path : Str} (isOpen : QueueOpen q)
    (taken : q.getNowait = (.ok path, after)) : QueueOpen after := by
  unfold FinishableQueue.getNowait at taken
  split at taken
  · rw [Prod.mk.injEq] at taken
    rw [← taken.2]
    exact isOpen
  · simp at taken

/-- A task that the timer wakes has started, and it keeps its path and stays live. -/
theorem DeferredTask.fire_spec {task after : DeferredTask} {now : LoopTime}
    (fired : task.fire now = some after) :
    after.path = task.path ∧ after.phase = .woken ∧ after.live = true ∧ task.phase ≠ .created := by
  unfold DeferredTask.fire at fired
  split at fired
  · rename_i due sleeping
    obtain ⟨⟨_, asked⟩, same⟩ := Option.ite_none_right_eq_some.mp fired
    rw [← Option.some.inj same, sleeping]
    simp [DeferredTask.live, DeferredTask.done, asked]
  · contradiction

/-- A resumed task keeps its path, and it goes on or puts the path unless the first print of the path fails. -/
theorem DeferredTask.resume_spec {task after : DeferredTask} {now : LoopTime}
    {q final : FinishableQueue Str} {put : Option Str} (isOpen : QueueOpen q)
    (resumed : task.resume now q = some (after, final, put)) :
    after.path = task.path ∧ QueueOpen final ∧ after.phase ≠ .created ∧
      (after.phase = .finished .cancelled →
        task.phase = .created ∧ task.cancelRequested = true) ∧
      (task.live = true → put = some task.path ∨ after.live = true ∨
        task.phase = .created ∧ after.done = true ∧ task.path.any isSurrogate = true) := by
  obtain ⟨path, phase, cancelRequested, createdAt⟩ := task
  cases phase with
  | created =>
      cases cancelRequested with
      | true =>
          simp only [resume, Option.some.injEq, Prod.mk.injEq] at resumed
          obtain ⟨rfl, rfl, rfl⟩ := resumed
          simp [isOpen, live]
      | false =>
          simp only [resume] at resumed
          split at resumed <;>
            (simp only [Option.some.injEq, Prod.mk.injEq] at resumed
             obtain ⟨rfl, rfl, rfl⟩ := resumed
             simp_all [live, done])
  | sleeping due =>
      cases cancelRequested with
      | false => simp [resume] at resumed
      | true =>
          simp only [resume, printLast, Option.some.injEq, Prod.mk.injEq] at resumed
          obtain ⟨rfl, rfl, rfl⟩ := resumed
          refine ⟨rfl, isOpen, nofun, ?_, by simp [live]⟩
          split <;> simp
  | woken =>
      cases cancelRequested with
      | false =>
          obtain ⟨next, stored, nextOpen⟩ := isOpen.put path
          simp only [resume, stored, printLast, Option.some.injEq, Prod.mk.injEq] at resumed
          obtain ⟨rfl, rfl, rfl⟩ := resumed
          refine ⟨rfl, nextOpen, nofun, ?_, fun _ => .inl rfl⟩
          split <;> simp
      | true =>
          simp only [resume, printLast, Option.some.injEq, Prod.mk.injEq] at resumed
          obtain ⟨rfl, rfl, rfl⟩ := resumed
          refine ⟨rfl, isOpen, nofun, ?_, by simp [live]⟩
          split <;> simp
  | finished ending => simp [resume] at resumed

namespace OnDemand

/-- This invariant needs no condition on the events. -/
structure Orderly (state : OnDemand) : Prop where
  books : Bookkeeping state.manager
  queueOpen : QueueOpen state.q

theorem orderly_start {state : OnDemand} (begins : OnDemand.start state) : Orderly state := by
  obtain ⟨_, manager, _, q, _⟩ := begins
  refine ⟨?_, ?_⟩
  · rw [manager]
    exact .initial
  · rw [q]
    exact ⟨rfl, rfl⟩

theorem handleEvent_q (state : OnDemand) (event : FileEvent) :
    (handleEvent state event).q = state.q := by
  have handled := handleEvent_handled state event
  generalize handleEvent state event = after at handled ⊢
  cases handled <;> rfl

theorem handleEvent_books {state : OnDemand} (books : Bookkeeping state.manager)
    (event : FileEvent) : Bookkeeping (handleEvent state event).manager := by
  have handled := handleEvent_handled state event
  generalize handleEvent state event = after at handled ⊢
  cases handled with
  | write => exact books.schedule state.now event.path
  | remove | raise => exact books.cancel event.path
  | skip => exact books

theorem orderly_step {state after : OnDemand} {label : Label} (orderly : Orderly state)
    (stepped : step state label = some after) : Orderly after := by
  cases step_taken stepped with
  | tick elapsed => exact ⟨orderly.books, orderly.queueOpen⟩
  | receive events idle => exact ⟨orderly.books, orderly.queueOpen⟩
  | handle event others inbox =>
      have books : Bookkeeping ({ state with inbox := others } : OnDemand).manager := orderly.books
      refine ⟨handleEvent_books books event, ?_⟩
      rw [handleEvent_q]
      exact orderly.queueOpen
  | fire number task next idle stored fired =>
      exact ⟨orderly.books.set stored (DeferredTask.fire_spec fired).1, orderly.queueOpen⟩
  | resume number task next q put idle stored resumed =>
      obtain ⟨path, finalOpen, _⟩ := DeferredTask.resume_spec orderly.queueOpen resumed
      exact ⟨orderly.books.set stored path, finalOpen⟩
  | check idle checking => exact ⟨orderly.books, orderly.queueOpen⟩
  | reap completed snapshot waits idle nonempty reported =>
      exact ⟨(orderly.books.reapPass completed).1, orderly.queueOpen⟩
  | take path q idle taken => exact ⟨orderly.books, orderly.queueOpen.getNowait taken⟩

end OnDemand

end ClamavDbscan
