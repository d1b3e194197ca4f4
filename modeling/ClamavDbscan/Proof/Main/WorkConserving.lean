import ClamavDbscan.Proof.Main.Staffing
import Mathlib.Data.List.Nodup
import Mathlib.Data.List.Perm.Subperm

/-
This file proves that the scan loop keeps its bound and never misses work.
-/

namespace ClamavDbscan

/-- The logger raises only for two outputs at one time. -/
theorem Logger.log_error {logger : Logger} {force : Bool} {now : ℚ} {raised : PyException}
    (failed : logger.log force now = .error raised) : raised.kind = .zeroDivisionError := by
  unfold Logger.log at failed
  dsimp only at failed
  split at failed
  · contradiction
  · split at failed
    · split at failed
      · rw [← Except.error.inj failed]
      · contradiction
    · contradiction

/-- A handled outcome escapes only with an exception of the logger. -/
theorem reportOutcome_error {logger : Logger} {outcome : Outcome} {now : ℚ} {raised : PyException}
    (handled : Handled outcome) (failed : reportOutcome logger outcome now = .error raised) :
    raised.kind = .zeroDivisionError := by
  obtain ⟨record, shown⟩ := Option.isSome_iff_exists.mp handled
  cases outcome with
  | ok result =>
      change resultRecord result = some record at shown
      cases logs : logger.log false now with
      | error escaped =>
          simp only [reportOutcome, logs, Except.bind, Except.error.injEq] at failed
          exact failed ▸ Logger.log_error logs
      | ok logged => simp [reportOutcome, logs, Except.bind, shown] at failed
  | error exception =>
      change exceptionRecord exception = some record at shown
      cases logs : logger.log true now with
      | error escaped =>
          simp only [reportOutcome, shown, logs, Except.map, Except.error.injEq] at failed
          exact failed ▸ Logger.log_error logs
      | ok logged => simp [reportOutcome, logs, Except.map, shown] at failed

namespace ScanLoop

variable {config : ScanConfig} {loop after : ScanLoop} {puts : Nat}

/-- The numbers of the scans that are not finished. -/
def inFlight (loop : ScanLoop) : List Nat :=
  (List.range loop.scans.length).filter fun number => !loop.doneTask (.scan number)

/-- The task is finished, or its next step is scheduled and finishes it. -/
def Scheduled (loop : ScanLoop) (task : TaskName) : Prop :=
  loop.doneTask task = true ∨ ∃ number woken, task = .ready number ∧
    loop.stepReady number = some woken ∧ woken.doneTask task = true

/-- A task for the queue exists until it is finished and has left the set. -/
def Waits (loop : ScanLoop) (number : Nat) : Prop :=
  .ready number ∈ loop.tasks ∨
    ∃ phase, loop.readyTasks[number]? = some phase ∧ phase ≠ .finished

/-- This is the exception of `asyncio.wait` for an empty set. -/
def emptyWait : PyException := ⟨.valueError, text "Set of Tasks/Futures is empty."⟩

theorem mem_inFlight {number : Nat} :
    number ∈ loop.inFlight ↔ ∃ task, loop.scans[number]? = some task ∧ task.outcome = none := by
  rw [inFlight, List.mem_filter, List.mem_range, doneTask]
  constructor
  · intro both
    obtain ⟨inside, pending⟩ := both
    refine ⟨_, List.getElem?_eq_getElem inside, ?_⟩
    simpa [List.getElem?_eq_getElem inside] using pending
  · intro exists_task
    obtain ⟨task, stored, pending⟩ := exists_task
    exact ⟨(List.getElem?_eq_some_iff.mp stored).1, by simp [stored, pending]⟩

theorem inFlight_nodup : (loop.inFlight.map TaskName.scan).Nodup :=
  List.Nodup.map (fun _ _ same => TaskName.scan.inj same) (List.nodup_range.filter _)

/-- Every unfinished scan has a place in the set. -/
theorem Staffed.inFlight_le (staffed : Staffed config loop) :
    (loop.inFlight.length : Int) ≤ config.maxScans := by
  have places : loop.inFlight.map TaskName.scan ⊆ loop.tasks.filter isScan := by
    intro task member
    obtain ⟨number, flying, rfl⟩ := List.mem_map.mp member
    obtain ⟨task, stored, pending⟩ := mem_inFlight.mp flying
    exact List.mem_filter.mpr ⟨staffed.unfinished number task stored pending, rfl⟩
  have fewer := (List.Nodup.subperm inFlight_nodup places).length_le
  rw [List.length_map, ← List.countP_eq_length_filter] at fewer
  have capacity := staffed.capacity
  omega

/-- At most one task for the queue is unfinished or in the set. -/
theorem Staffed.remembered (staffed : Staffed config loop) {number : Nat} (waits : loop.Waits number) :
    loop.fileReadyTask = some number := by
  rcases waits with member | unfinished
  · exact staffed.awaited number member
  · obtain ⟨phase, stored, running⟩ := unfinished
    exact staffed.alive number phase stored running

/-- While a path is queued, the next step of the waiting task finishes it. -/
theorem Staffed.scheduled (staffed : Staffed config loop) (queued : loop.filesToScan.q ≠ [])
    {number : Nat} (known : number < loop.readyTasks.length) : loop.Scheduled (.ready number) := by
  have value := staffed.signalled.set queued
  have stored := List.getElem?_eq_getElem known
  cases phase : loop.readyTasks[number] with
  | created =>
      refine .inr ⟨number, { loop with readyTasks := loop.readyTasks.set number .finished }, rfl, ?_, ?_⟩
      · rw [stepReady, stored, phase]
        simp [value]
      · simp [doneTask, known]
  | waiting =>
      rw [phase] at stored
      have registered := staffed.registered number stored
      rw [staffed.orderly.woken value, List.nil_append] at registered
      refine .inr ⟨number, { loop with readyTasks := loop.readyTasks.set number .finished }, rfl, ?_, ?_⟩
      · rw [stepReady, stored]
        simp [registered]
      · simp [doneTask, known]
  | finished =>
      rw [phase] at stored
      exact .inl (by simp [doneTask, stored])

/-- A suspended loop with a queued path and a free place is about to be woken. -/
theorem Suspended.awake (suspended : Suspended config loop) (staffed : Staffed config loop)
    (queued : loop.filesToScan.q ≠ []) (free : (loop.inFlight.length : Int) < config.maxScans) :
    ∃ task ∈ loop.tasks, loop.Scheduled task := by
  by_contra asleep
  have pending : ∀ task ∈ loop.tasks, loop.doneTask task = false := by
    intro task member
    rw [Bool.eq_false_iff]
    exact fun finished => asleep ⟨task, member, .inl finished⟩
  cases remembered : loop.fileReadyTask with
  | some number =>
      obtain ⟨member, known⟩ := suspended.held number remembered
      exact asleep ⟨_, member, staffed.scheduled queued known⟩
  | none =>
      have full : config.maxScans ≤ (loop.tasks.length : Int) := by
        rcases suspended.filled with full | awaited | finished
        · exact full
        · exact absurd remembered awaited
        · exact absurd finished.2 queued
      have flying : loop.tasks ⊆ loop.inFlight.map TaskName.scan := by
        intro task member
        cases task with
        | ready number =>
            have same := staffed.awaited number member
            rw [remembered] at same
            contradiction
        | scan number =>
            have inside := staffed.known number member
            refine List.mem_map_of_mem (mem_inFlight.mpr ⟨_, List.getElem?_eq_getElem inside, ?_⟩)
            simpa [doneTask, List.getElem?_eq_getElem inside] using pending _ member
      have fewer := (List.Nodup.subperm staffed.distinct flying).length_le
      rw [List.length_map] at fewer
      omega

/-- These facts hold in every state of a run. -/
structure Conserving (config : ScanConfig) (puts : Nat) (loop : ScanLoop) : Prop where
  staffed : Staffed config loop
  paced : Paced puts loop
  control : loop.control ≠ .raised emptyWait
  suspended : loop.control = .waiting → Suspended config loop

namespace Conserving

/-- A scan that finishes leaves the set and the queue. -/
theorem finishScan (conserving : Conserving config puts loop)
    (handled : ∀ number path, Handled (config.outcome number path)) (number : Nat) (path : Str) :
    Conserving config puts
      { loop with scans := loop.scans.set number ⟨path, some (config.outcome number path)⟩ } := by
  have staffed := conserving.staffed
  refine ⟨⟨staffed.signalled, staffed.orderly, staffed.mode, staffed.distinct, ?_, ?_,
    staffed.capacity, staffed.awaited, staffed.alive, staffed.registered, ?_⟩,
    ⟨conserving.paced.bound, conserving.paced.woken⟩, conserving.control, fun waits => ?_⟩
  · simpa using staffed.known
  · intro other task stored pending
    dsimp only at stored
    rcases Transition.replace_cases stored with ⟨_, rfl⟩ | ⟨_, stored⟩
    · contradiction
    · exact staffed.unfinished other task stored pending
  · intro task member outcome ended
    rcases List.mem_or_eq_of_mem_set member with old | rfl
    · exact staffed.handled task old outcome ended
    · obtain rfl := Option.some.inj ended
      exact handled number path
  · have suspended := conserving.suspended waits
    exact ⟨suspended.nonempty, suspended.held, suspended.filled⟩

/-- A task for the queue ends when the event is set or has woken it. -/
theorem finishReady (conserving : Conserving config puts loop) {number : Nat} {phase : ReadyPhase}
    (stored : loop.readyTasks[number]? = some phase) (running : phase ≠ .finished)
    (woken : loop.filesToScan.readyEvent.value = true ∨
      number ∈ loop.filesToScan.readyEvent.resolved) :
    Conserving config puts { loop with readyTasks := loop.readyTasks.set number .finished } := by
  have staffed := conserving.staffed
  have remembered := staffed.alive number phase stored running
  have later : ∀ (other : Nat) (phase : ReadyPhase),
      (loop.readyTasks.set number ReadyPhase.finished)[other]? = some phase →
      phase ≠ .finished → loop.readyTasks[other]? = some phase := by
    intro other phase found unfinished
    rcases Transition.replace_cases found with ⟨_, finished⟩ | ⟨_, before⟩
    · exact absurd finished unfinished
    · exact before
  have awake : ¬ loop.Quiet := by
    intro quiet
    obtain ⟨value, other, same, _, unwoken⟩ := quiet
    rw [remembered] at same
    obtain rfl := Option.some.inj same
    rcases woken with set | resolved
    · rw [value] at set
      contradiction
    · exact unwoken resolved
  have length : (loop.readyTasks.set number ReadyPhase.finished).length = loop.readyTasks.length :=
    List.length_set
  refine ⟨⟨staffed.signalled, length ▸ staffed.orderly, staffed.mode, staffed.distinct,
    staffed.known, staffed.unfinished, staffed.capacity, staffed.awaited, ?_, ?_, staffed.handled⟩,
    ⟨length ▸ conserving.paced.bound, fun _ => length ▸ conserving.paced.woken awake⟩,
    conserving.control, fun waits => ?_⟩
  · exact fun other phase found unfinished =>
      staffed.alive other phase (later other phase found unfinished) unfinished
  · exact fun other found =>
      staffed.registered other (later other _ found (by decide))
  · have suspended := conserving.suspended waits
    refine ⟨suspended.nonempty, ?_, suspended.filled⟩
    intro other same
    obtain ⟨member, known⟩ := suspended.held other same
    exact ⟨member, length ▸ known⟩

/-- A task for the queue that finds the event clear is registered with it. -/
theorem registerReady (conserving : Conserving config puts loop) {number : Nat}
    (stored : loop.readyTasks[number]? = some .created)
    (clear : loop.filesToScan.readyEvent.value = false) :
    Conserving config puts { loop with
      readyTasks := loop.readyTasks.set number .waiting
      filesToScan := { loop.filesToScan with readyEvent := { loop.filesToScan.readyEvent with
        waiting := loop.filesToScan.readyEvent.waiting ++ [number] } } } := by
  have staffed := conserving.staffed
  have inside := (List.getElem?_eq_some_iff.mp stored).1
  have remembered := staffed.alive number .created stored (by decide)
  have length : (loop.readyTasks.set number ReadyPhase.waiting).length = loop.readyTasks.length :=
    List.length_set
  refine ⟨⟨⟨staffed.signalled.waiters, staffed.signalled.set, staffed.signalled.clear⟩, ?_,
    staffed.mode, staffed.distinct, staffed.known, staffed.unfinished, staffed.capacity,
    staffed.awaited, ?_, ?_, staffed.handled⟩, ⟨length ▸ conserving.paced.bound, ?_⟩,
    conserving.control, fun waits => ?_⟩
  · refine ⟨fun value => absurd (clear.symm.trans value) Bool.false_ne_true, ?_⟩
    intro other member
    dsimp only at member ⊢
    rw [length]
    by_cases same : number = other
    · exact same ▸ inside
    · apply staffed.orderly.known
      simpa [Ne.symm same] using member
  · intro other phase found running
    rcases Transition.replace_cases found with ⟨rfl, _⟩ | ⟨_, found⟩
    · exact remembered
    · exact staffed.alive other phase found running
  · intro other found
    dsimp only
    rcases Transition.replace_cases found with ⟨rfl, _⟩ | ⟨_, found⟩
    · simp
    · have registered := staffed.registered other found
      simp only [List.mem_append] at registered ⊢
      exact registered.imp_left .inl
  · intro awake
    dsimp only at awake ⊢
    rw [length]
    apply conserving.paced.woken
    intro quiet
    obtain ⟨value, other, same, _, unwoken⟩ := quiet
    rw [remembered] at same
    obtain rfl := Option.some.inj same
    exact awake ⟨value, number, remembered, by simp [inside], unwoken⟩
  · have suspended := conserving.suspended waits
    refine ⟨suspended.nonempty, ?_, suspended.filled⟩
    intro other same
    obtain ⟨member, known⟩ := suspended.held other same
    exact ⟨member, length ▸ known⟩

/-- The task for the queue runs to its end or to the event. -/
theorem stepReady (conserving : Conserving config puts loop) {number : Nat}
    (taken : loop.stepReady number = some after) :
    Conserving config puts after ∧ after.readyTasks.length = loop.readyTasks.length := by
  rw [ScanLoop.stepReady] at taken
  dsimp only at taken
  split at taken
  · rename_i stored
    split at taken
    · rename_i value
      obtain rfl := Option.some.inj taken
      exact ⟨conserving.finishReady stored (by decide) (.inl value), List.length_set⟩
    · rename_i clear
      obtain rfl := Option.some.inj taken
      exact ⟨conserving.registerReady stored (Bool.eq_false_iff.mpr clear), List.length_set⟩
  · rename_i stored
    split at taken
    · rename_i resolved
      obtain rfl := Option.some.inj taken
      exact ⟨conserving.finishReady stored (by decide) (.inr resolved), List.length_set⟩
    · contradiction
  · contradiction

/-- A put by the watcher sets the event. -/
theorem put (conserving : Conserving config puts loop) (watching : config.watch = true) (path : Str) :
    Conserving config (puts + 1) { loop with filesToScan := (loop.filesToScan.put path).2 } := by
  have staffed := conserving.staffed
  have unfinished : loop.filesToScan.finishedFlag = false := by rw [staffed.mode, watching]; rfl
  have signalled := staffed.signalled.put path
  have orderly := staffed.orderly.set
  rw [FinishableQueue.put_open staffed.signalled unfinished] at signalled ⊢
  refine ⟨⟨signalled, orderly, staffed.mode, staffed.distinct, staffed.known, staffed.unfinished,
    staffed.capacity, staffed.awaited, staffed.alive, ?_, staffed.handled⟩, ⟨?_, ?_⟩,
    conserving.control, ?_⟩
  · exact fun number stored => ReadyEvent.registered_set (staffed.registered number stored)
  · exact Nat.le_succ_of_le conserving.paced.bound
  · exact fun _ => conserving.paced.bound
  · intro waits
    have suspended := conserving.suspended waits
    refine ⟨suspended.nonempty, suspended.held, ?_⟩
    rcases suspended.filled with full | awaited | finished
    · exact .inl full
    · exact .inr (.inl awaited)
    · rw [unfinished] at finished
      exact absurd finished.1 Bool.false_ne_true

end Conserving

/-- The loop over the completed tasks forgets the task for the queue when it is one of them, and it
raises only an exception of the logger. -/
structure Reports (completed : List TaskName) (loop after : ScanLoop) : Prop where
  filesToScan : after.filesToScan = loop.filesToScan
  scans : after.scans = loop.scans
  readyTasks : after.readyTasks = loop.readyTasks
  tasks : after.tasks = loop.tasks
  remembered : after.fileReadyTask = loop.fileReadyTask ∨ after.fileReadyTask = none ∧
    ∃ number, loop.fileReadyTask = some number ∧ .ready number ∈ completed
  control : after.control = loop.control ∧
      (∀ number, .ready number ∈ completed → after.fileReadyTask ≠ some number) ∨
    ∃ raised, after.control = .raised raised ∧ raised.kind = .zeroDivisionError

/-- One completed task is forgotten, or its outcome is reported. -/
theorem reportOne_ok {task : TaskName} {now : ℚ} (reported : loop.reportOne task now = .ok after) :
    ∃ logger written remembered, after = { loop with
        logger := logger, written := written, fileReadyTask := remembered } ∧
      (remembered = loop.fileReadyTask ∨ remembered = none ∧
        ∃ number, loop.fileReadyTask = some number ∧ task = .ready number) ∧
      ∀ number, task = .ready number → remembered ≠ some number := by
  cases task with
  | ready number =>
      rw [reportOne] at reported
      split at reported
      · rename_i same
        obtain rfl := Except.ok.inj reported
        exact ⟨_, _, none, rfl, .inr ⟨rfl, number, same, rfl⟩, fun _ _ => nofun⟩
      · rename_i other
        obtain rfl := Except.ok.inj reported
        refine ⟨_, _, _, rfl, .inl rfl, ?_⟩
        intro number same
        obtain rfl := TaskName.ready.inj same
        exact other
  | scan number =>
      rw [reportOne] at reported
      split at reported
      · rename_i outcome _
        cases shown : reportOutcome loop.logger outcome now with
        | error raised =>
            rw [shown] at reported
            contradiction
        | ok result =>
            rw [shown] at reported
            obtain rfl := Except.ok.inj reported
            exact ⟨_, _, _, rfl, .inl rfl, fun _ => nofun⟩
      · obtain rfl := Except.ok.inj reported
        exact ⟨_, _, _, rfl, .inl rfl, fun _ => nofun⟩

theorem reportOne_error {task : TaskName} {now : ℚ} {raised : PyException}
    (handled : ∀ task ∈ loop.scans, ∀ outcome ∈ task.outcome, Handled outcome)
    (failed : loop.reportOne task now = .error raised) : raised.kind = .zeroDivisionError := by
  cases task with
  | ready number =>
      rw [reportOne] at failed
      split at failed <;> contradiction
  | scan number =>
      rw [reportOne] at failed
      split at failed
      · rename_i outcome ended
        obtain ⟨task, stored, same⟩ := Option.bind_eq_some_iff.mp ended
        have known := handled task (List.mem_of_getElem? stored) outcome same
        cases shown : reportOutcome loop.logger outcome now with
        | error escaped =>
            rw [shown] at failed
            obtain rfl := Except.error.inj failed
            exact reportOutcome_error known shown
        | ok result =>
            rw [shown] at failed
            contradiction
      · contradiction

theorem reports_reportAll (completed : List (TaskName × ℚ))
    (handled : ∀ task ∈ loop.scans, ∀ outcome ∈ task.outcome, Handled outcome) :
    Reports (completed.map Prod.fst) loop (reportAll completed loop) := by
  induction completed generalizing loop with
  | nil => exact ⟨rfl, rfl, rfl, rfl, .inl rfl, .inl ⟨rfl, fun _ member => absurd member List.not_mem_nil⟩⟩
  | cons entry others ih =>
      obtain ⟨task, now⟩ := entry
      rw [reportAll]
      cases reported : loop.reportOne task now with
      | error raised =>
          exact ⟨rfl, rfl, rfl, rfl, .inl rfl, .inr ⟨raised, rfl, reportOne_error handled reported⟩⟩
      | ok after =>
          obtain ⟨logger, written, remembered, rfl, kept, forgotten⟩ := reportOne_ok reported
          have later : Reports (others.map Prod.fst) { loop with
              logger := logger, written := written, fileReadyTask := remembered } _ := ih handled
          refine ⟨later.filesToScan, later.scans, later.readyTasks, later.tasks, ?_, ?_⟩
          · rcases later.remembered with same | forgets
            · rw [same]
              refine kept.imp_right ?_
              intro here
              obtain ⟨gone, number, before, first⟩ := here
              exact ⟨gone, number, before, first ▸ List.mem_cons_self⟩
            · obtain ⟨nothing, number, same, member⟩ := forgets
              rcases kept with before | ⟨gone, _⟩
              · exact .inr ⟨nothing, number, before ▸ same, List.mem_cons_of_mem _ member⟩
              · rw [gone] at same
                contradiction
          · rcases later.control with ⟨same, left⟩ | raises
            · refine .inl ⟨same, ?_⟩
              intro number member
              rcases List.mem_cons.mp member with first | rest
              · rcases later.remembered with kept | ⟨gone, _⟩
                · rw [kept]
                  exact forgotten number first.symm
                · rw [gone]
                  exact nofun
              · exact left number rest
            · exact .inr raises

/-- After the report the set holds the pending tasks, and the loop remembers a pending task. -/
structure Reported (loop after : ScanLoop) : Prop where
  filesToScan : after.filesToScan = loop.filesToScan
  scans : after.scans = loop.scans
  readyTasks : after.readyTasks = loop.readyTasks
  tasks : after.tasks = loop.tasks.filter fun task => !loop.doneTask task
  remembered : ∀ number, loop.fileReadyTask = some number → loop.doneTask (.ready number) = false →
    after.fileReadyTask = some number
  before : ∀ number, after.fileReadyTask = some number → loop.fileReadyTask = some number

theorem Reports.reported {completed : List TaskName} (reports : Reports completed loop.swap after)
    (all : completed.Perm (loop.tasks.filter loop.doneTask)) : Reported loop after := by
  refine ⟨reports.filesToScan, reports.scans, reports.readyTasks, reports.tasks, ?_, ?_⟩
  · intro number same pending
    rcases reports.remembered with kept | ⟨_, other, first, member⟩
    · exact kept.trans same
    · change loop.fileReadyTask = some other at first
      rw [same] at first
      obtain rfl := Option.some.inj first
      have done := (List.mem_filter.mp (all.mem_iff.mp member)).2
      rw [pending] at done
      contradiction
  · intro number same
    rcases reports.remembered with kept | ⟨gone, _⟩
    · exact kept.symm.trans same
    · rw [gone] at same
      contradiction

/-- The report keeps the tasks in order. -/
theorem Staffed.reported (staffed : Staffed config loop) (reported : Reported loop after) :
    Staffed config after := by
  obtain ⟨filesToScan, scans, readyTasks, tasks, remembered, _⟩ := reported
  refine ⟨?_, ?_, ?_, ?_, ?_, ?_, ?_, ?_, ?_, ?_, ?_⟩
  · exact filesToScan ▸ staffed.signalled
  · rw [filesToScan, readyTasks]
    exact staffed.orderly
  · exact filesToScan ▸ staffed.mode
  · rw [tasks]
    exact staffed.distinct.filter _
  · intro number member
    rw [tasks] at member
    rw [scans]
    exact staffed.known number (List.mem_filter.mp member).1
  · intro number task stored pending
    rw [scans] at stored
    rw [tasks, List.mem_filter]
    exact ⟨staffed.unfinished number task stored pending, by simp [doneTask, stored, pending]⟩
  · have fewer : (loop.tasks.filter fun task => !loop.doneTask task).countP isScan ≤
        loop.tasks.countP isScan := List.filter_sublist.countP_le
    have capacity := staffed.capacity
    rw [tasks]
    omega
  · intro number member
    rw [tasks, List.mem_filter] at member
    exact remembered number (staffed.awaited number member.1) (by simpa using member.2)
  · intro number phase stored running
    rw [readyTasks] at stored
    apply remembered number (staffed.alive number phase stored running)
    simp [doneTask, stored, running]
  · intro number stored
    rw [readyTasks] at stored
    rw [filesToScan]
    exact staffed.registered number stored
  · rw [scans]
    exact staffed.handled

/-- The report makes no quiet task awake. -/
theorem Paced.reported (paced : Paced puts loop) (reported : Reported loop after) :
    Paced puts after := by
  refine ⟨reported.readyTasks ▸ paced.bound, ?_⟩
  intro awake
  rw [reported.readyTasks]
  apply paced.woken
  intro quiet
  obtain ⟨value, number, same, unfinished, unwoken⟩ := quiet
  apply awake
  refine ⟨reported.filesToScan ▸ value, number, ?_, reported.readyTasks ▸ unfinished,
    reported.filesToScan ▸ unwoken⟩
  apply reported.remembered number same
  simpa [doneTask] using unfinished

/-- The task that the loop still remembers was not completed, so it is in the set. -/
theorem Held.reported (held : loop.Held) (reported : Reported loop after) {completed : List TaskName}
    (all : completed.Perm (loop.tasks.filter loop.doneTask))
    (left : ∀ number, .ready number ∈ completed → after.fileReadyTask ≠ some number) : after.Held := by
  intro number same
  obtain ⟨member, known⟩ := held number (reported.before number same)
  refine ⟨?_, reported.readyTasks ▸ known⟩
  rw [reported.tasks, List.mem_filter]
  refine ⟨member, ?_⟩
  by_contra done
  have finished : .ready number ∈ completed := by
    rw [all.mem_iff, List.mem_filter]
    exact ⟨member, by simpa using done⟩
  exact left number finished same

/-- Reporting the completed tasks keeps the facts, and what the loop still remembers is pending. -/
theorem Conserving.report (conserving : Conserving config puts loop) (waits : loop.control = .waiting)
    {completed : List TaskName} (all : completed.Perm (loop.tasks.filter loop.doneTask))
    (reports : Reports completed loop.swap after) :
    Staffed config after ∧ Paced puts after ∧ (after.control = .waiting → after.Held) ∧
      after.control ≠ .raised emptyWait := by
  have reported := reports.reported all
  refine ⟨conserving.staffed.reported reported, conserving.paced.reported reported, ?_, ?_⟩
  · intro still
    rcases reports.control with ⟨_, left⟩ | ⟨raised, control, _⟩
    · exact (conserving.suspended waits).held.reported reported all left
    · rw [control] at still
      contradiction
  · rcases reports.control with ⟨same, _⟩ | ⟨raised, control, kind⟩
    · rw [same]
      change loop.control ≠ _
      rw [waits]
      intro same
      contradiction
    · rw [control]
      intro same
      rw [Control.raised.inj same] at kind
      contradiction

def Label.isPut : Label → Bool
  | .put _ => true
  | _ => false

/-- A new task for the queue finds the event clear. -/
def CreatedClear (loop after : ScanLoop) : Prop :=
  loop.readyTasks.length < after.readyTasks.length →
    after.filesToScan.readyEvent.value = false

theorem createdClear_of_length (same : after.readyTasks.length = loop.readyTasks.length) :
    CreatedClear loop after :=
  fun less => absurd (same ▸ less) (Nat.lt_irrefl _)

/-- The loop resumes with its completed tasks and returns, raises or waits again. -/
theorem Conserving.resume (positive : 1 ≤ config.maxScans) (conserving : Conserving config puts loop)
    (waits : loop.control = .waiting) {completed : List (TaskName × ℚ)}
    (all : (completed.map Prod.fst).Perm (loop.tasks.filter loop.doneTask)) :
    let reported := reportAll completed loop.swap
    (reported.control = .waiting → Conserving config puts (reported.enter config.maxScans) ∧
        CreatedClear loop (reported.enter config.maxScans)) ∧
      (reported.control ≠ .waiting → Conserving config puts reported ∧
        CreatedClear loop reported) := by
  have reports : Reports _ loop.swap _ := reports_reportAll completed conserving.staffed.handled
  obtain ⟨staffed, paced, held, control⟩ := conserving.report waits all reports
  have length : (reportAll completed loop.swap).readyTasks.length = loop.readyTasks.length :=
    congrArg List.length reports.readyTasks
  constructor
  · intro still
    obtain ⟨kept, steady, ends, created⟩ := enter_staffed positive staffed paced (held still)
    refine ⟨⟨kept, steady, ?_, ?_⟩, fun less => created (length ▸ less)⟩
    · rcases ends with returned | ⟨waiting, _⟩
      · rw [returned]
        exact nofun
      · rw [waiting]
        exact nofun
    · intro waiting
      rcases ends with returned | ⟨_, suspended⟩
      · rw [returned] at waiting
        contradiction
      · exact suspended
  · intro stopped
    exact ⟨⟨staffed, paced, control, fun waiting => absurd waiting stopped⟩,
      createdClear_of_length length⟩

theorem conserving_step (positive : 1 ≤ config.maxScans)
    (handled : ∀ number path, Handled (config.outcome number path)) {label : Label}
    (conserving : Conserving config puts loop) (taken : step config loop label = some after) :
    Conserving config (puts + if label.isPut then 1 else 0) after ∧ CreatedClear loop after := by
  unfold step at taken
  split at taken
  · rename_i waits
    cases label with
    | finishScan number =>
        dsimp only at taken
        split at taken
        · obtain rfl := Option.some.inj taken
          exact ⟨conserving.finishScan handled number _, createdClear_of_length rfl⟩
        · contradiction
    | stepReady number =>
        obtain ⟨kept, length⟩ := conserving.stepReady taken
        exact ⟨kept, createdClear_of_length length⟩
    | put path =>
        obtain ⟨watching, same⟩ := Option.ite_none_right_eq_some.mp taken
        obtain rfl := Option.some.inj same
        exact ⟨conserving.put watching path, createdClear_of_length rfl⟩
    | resume completed =>
        obtain ⟨⟨_, all⟩, same⟩ := Option.ite_none_right_eq_some.mp taken
        obtain ⟨goes, stops⟩ := conserving.resume positive waits all
        dsimp only at same
        split at same
        · rename_i still
          obtain rfl := Option.some.inj same
          exact goes still
        · rename_i stopped
          obtain rfl := Option.some.inj same
          exact stops stopped
  · contradiction

/-- Puts keep the event of a queue that is not finished. -/
theorem signalled_puts {queue : FinishableQueue Str} (signalled : queue.Signalled)
    (orderly : queue.readyEvent.Orderly 0) (unfinished : queue.finishedFlag = false)
    (paths : List Str) :
    let filled := paths.foldl (fun queue path => (queue.put path).2) queue
    filled.Signalled ∧ filled.readyEvent.Orderly 0 ∧ filled.finishedFlag = false := by
  induction paths generalizing queue with
  | nil => exact ⟨signalled, orderly, unfinished⟩
  | cons path others ih =>
      have kept := signalled.put path
      rw [List.foldl_cons]
      rw [FinishableQueue.put_open signalled unfinished] at kept ⊢
      exact ih kept orderly.set unfinished

/-- The gathered queue tells its state with its event. -/
theorem gathered_signalled (config : ScanConfig) (paths : List Str) :
    (gathered config paths).Signalled ∧ (gathered config paths).readyEvent.Orderly 0 ∧
      (gathered config paths).finishedFlag = !config.watch := by
  have orderly : ReadyEvent.initial.Orderly 0 :=
    ⟨fun _ => rfl, fun _ member => absurd member List.not_mem_nil⟩
  obtain ⟨signalled, events, unfinished⟩ := signalled_puts .initial orderly rfl paths
  rw [gathered]
  cases config.watch with
  | true => exact ⟨signalled, events, unfinished⟩
  | false =>
      have finished := signalled.finish
      simp only [FinishableQueue.finish, unfinished, signalled.waiters, Bool.false_eq_true, if_false,
        List.isEmpty_nil, if_true] at finished ⊢
      exact ⟨finished, events.set, rfl⟩

/-- The first wait is entered with the gathered queue and no task. -/
theorem conserving_atStart (positive : 1 ≤ config.maxScans) (paths : List Str) :
    Conserving config 0 (atStart config paths) ∧
      ((atStart config paths).readyTasks ≠ [] →
        (atStart config paths).filesToScan.readyEvent.value = false) := by
  obtain ⟨signalled, orderly, mode⟩ := gathered_signalled config paths
  have staffed : Staffed config
      ⟨gathered config paths, [], [], [], none, .initial, [], .waiting⟩ :=
    ⟨signalled, orderly, mode, List.nodup_nil, by simp, by simp, by simp; omega, by simp, by simp,
      by simp, by simp⟩
  obtain ⟨kept, steady, ends, created⟩ := enter_staffed positive staffed
    (⟨Nat.zero_le _, fun _ => Nat.le_refl _⟩ : Paced 0 _) (fun _ remembered => nomatch remembered)
  refine ⟨⟨kept, steady, ?_, ?_⟩, fun nonempty => created (List.length_pos_iff.mpr nonempty)⟩
  · intro raised
    rcases ends with returned | ⟨waiting, _⟩
    · exact nomatch returned.symm.trans raised
    · exact nomatch waiting.symm.trans raised
  · intro waiting
    rcases ends with returned | ⟨_, suspended⟩
    · exact nomatch returned.symm.trans waiting
    · exact suspended

open Transition in
theorem conserving_run {past : List (ScanLoop × Label)} {last : ScanLoop} {paths : List Str}
    (positive : 1 ≤ config.maxScans) (handled : ∀ number path, Handled (config.outcome number path))
    (run : Run (system config paths) past last) :
    Conserving config (past.countP fun taken => taken.2.isPut) last := by
  induction run with
  | start begins =>
      obtain rfl : _ = atStart config paths := begins
      exact (conserving_atStart positive paths).1
  | next _ taken ih =>
      rw [List.countP_cons]
      exact (conserving_step positive handled ih taken).1

/-- The loop has at most `maxScans` scans and one task for the queue, it never waits for an empty
set, it creates tasks for the queue only after puts, and it does not sleep while it could scan. -/
structure WellBehaved (config : ScanConfig) (puts : Nat) (loop : ScanLoop) : Prop where
  bounded : (loop.inFlight.length : Int) ≤ config.maxScans
  noEmptyWait : loop.control ≠ .raised emptyWait ∧ (loop.control = .waiting → loop.tasks ≠ [])
  oneWaiter : ∀ first second, loop.Waits first → loop.Waits second → first = second
  noSpin : loop.readyTasks.length ≤ puts + 1
  awake : loop.control = .waiting → loop.filesToScan.q ≠ [] →
    (loop.inFlight.length : Int) < config.maxScans → ∃ task ∈ loop.tasks, loop.Scheduled task

theorem Conserving.wellBehaved (conserving : Conserving config puts loop) :
    WellBehaved config puts loop where
  bounded := conserving.staffed.inFlight_le
  noEmptyWait := ⟨conserving.control, fun waits => (conserving.suspended waits).nonempty⟩
  oneWaiter first second left right := by
    have same := (conserving.staffed.remembered left).symm.trans (conserving.staffed.remembered right)
    exact Option.some.inj same
  noSpin := conserving.paced.bound
  awake waits queued free := (conserving.suspended waits).awake conserving.staffed queued free

open Transition in
/-- Every state of every run is well behaved, and a task for the queue is created only while the
event is clear. -/
theorem scan_loop_well_behaved {past : List (ScanLoop × Label)} {last : ScanLoop} {paths : List Str}
    (positive : 1 ≤ config.maxScans) (handled : ∀ number path, Handled (config.outcome number path))
    (run : Run (system config paths) past last) :
    WellBehaved config (past.countP fun taken => taken.2.isPut) last ∧
      ((atStart config paths).readyTasks ≠ [] →
        (atStart config paths).filesToScan.readyEvent.value = false) ∧
      ∀ label after, step config last label = some after → CreatedClear last after := by
  have conserving := conserving_run positive handled run
  exact ⟨conserving.wellBehaved, (conserving_atStart positive paths).2,
    fun _ _ taken => (conserving_step positive handled conserving taken).2⟩

/-- The watcher puts files into this queue, and each of them is gone when it is scanned. -/
def watchedQueue : ScanConfig := ⟨1, true, fun _ path => .error ⟨.fileNotFoundError, path⟩⟩

open Transition in
/-- A put wakes the loop that waits with an empty queue. -/
theorem put_wakes_loop : ∃ past last, Run (system watchedQueue []) past last ∧
    last.filesToScan.q = [text "/a"] ∧ ∃ task ∈ last.tasks, last.Scheduled task := by
  have begins : Run (system watchedQueue []) [] (atStart watchedQueue []) := .start rfl
  have run := begins.follow [.stepReady 0, .put (text "/a")] rfl
  have handled : ∀ number path, Handled (watchedQueue.outcome number path) := fun _ _ => rfl
  have behaved := (scan_loop_well_behaved (by decide) handled run).1
  exact ⟨_, _, run, rfl, behaved.awake rfl (by decide) (by decide)⟩

end ScanLoop

end ClamavDbscan
