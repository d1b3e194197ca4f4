import ClamavDbscan.Construction.Main.ScanLoop

/-
This file proves that the scan loop accounts for every queued path.
-/

namespace ClamavDbscan

/-- The loop prints a record for this outcome. -/
def recordOf : Outcome → Option Record
  | .ok result => resultRecord result
  | .error raised => exceptionRecord raised

/-- An outcome is handled when it has a record. -/
def Handled (outcome : Outcome) : Prop := (recordOf outcome).isSome = true

instance (outcome : Outcome) : Decidable (Handled outcome) :=
  inferInstanceAs (Decidable (_ = true))

/-- The record names the result, or it ends with the message of the exception. -/
def RecordFor (outcome : Outcome) (record : Record) : Prop :=
  match outcome with
  | .ok result => resultRecord result = some record
  | .error raised => record.1 = .fsError ∧ raised.message <:+ record.2

theorem recordFor_of_recordOf {outcome : Outcome} {record : Record}
    (shown : recordOf outcome = some record) : RecordFor outcome record := by
  cases outcome with
  | ok result => exact shown
  | error raised =>
      change exceptionRecord raised = some record at shown
      unfold exceptionRecord at shown
      split at shown
      case h_4 => contradiction
      all_goals
        obtain rfl := Option.some.inj shown
        exact ⟨rfl, List.suffix_append _ _⟩

namespace Logger

def lastOutput (logger : Logger) : Option ℚ := logger.last.map Prod.fst

/-- The time of the last output after a message at this time. -/
def nextOutput (last : Option ℚ) (force : Bool) (now : ℚ) : Option ℚ :=
  match last with
  | none => some now
  | some output => if force || decide (output + 10 < now) then some now else some output

/-- Only a forced message at the time of the last output divides by zero. -/
theorem log_cases (logger : Logger) (force : Bool) (now : ℚ) :
    ((force = true ∧ logger.lastOutput = some now) ∧ ∃ raised, logger.log force now = .error raised) ∨
      (force = true → logger.lastOutput ≠ some now) ∧ ∃ logged, logger.log force now = .ok logged ∧
        logged.lastOutput = nextOutput logger.lastOutput force now := by
  unfold log lastOutput
  cases kept : logger.last with
  | none => exact .inr ⟨fun _ => nofun, _, rfl, rfl⟩
  | some last =>
      obtain ⟨output, count⟩ := last
      dsimp only [Option.map_some]
      by_cases shows : (force || decide (output + 10 < now)) = true
      · by_cases elapsed : now - output = 0
        · have same : now = output := sub_eq_zero.mp elapsed
          subst same
          refine .inl ⟨⟨?_, rfl⟩, _, by rw [if_pos shows, if_pos elapsed]⟩
          have late : ¬ now + 10 < now := not_lt.mpr (le_add_of_nonneg_right (by decide))
          simpa [late] using shows
        · refine .inr ⟨fun _ same => elapsed (sub_eq_zero.mpr (Option.some.inj same).symm), ?_⟩
          exact ⟨_, by rw [if_pos shows, if_neg elapsed], by rw [nextOutput, if_pos shows]; rfl⟩
      · refine .inr ⟨fun forced => absurd (by rw [forced, Bool.true_or]) shows, ?_⟩
        exact ⟨_, by rw [if_neg shows], by rw [nextOutput, if_neg shows]; simp⟩

end Logger

/-- The record of an exception is always shown on the terminal. -/
def forces : Outcome → Bool
  | .ok _ => false
  | .error _ => true

/-- What has been reported has a record. -/
theorem reportOutcome_ok {logger logged : Logger} {outcome : Outcome} {now : ℚ} {record : Record}
    (reported : reportOutcome logger outcome now = .ok (logged, record)) :
    recordOf outcome = some record := by
  cases outcome with
  | ok result =>
      change Except.bind (logger.log false now) _ = _ at reported
      cases logs : logger.log false now with
      | error raised => simp [logs, Except.bind] at reported
      | ok next =>
          rw [logs, Except.bind] at reported
          change resultRecord result = some record
          cases shown : resultRecord result with
          | none => simp [shown] at reported
          | some shownRecord => simp_all
  | error raised =>
      unfold reportOutcome at reported
      change exceptionRecord raised = some record
      cases shown : exceptionRecord raised with
      | none => simp [shown] at reported
      | some shownRecord =>
          simp only [shown] at reported
          cases logs : logger.log true now with
          | error failed => simp [logs, Except.map] at reported
          | ok next => simp_all [Except.map]

/-- A handled outcome is reported unless it divides by zero, and no other is. -/
theorem reportOutcome_cases (logger : Logger) (outcome : Outcome) (now : ℚ) :
    ((Handled outcome ∧ (forces outcome = true → logger.lastOutput ≠ some now)) ∧
        ∃ logged record, reportOutcome logger outcome now = .ok (logged, record) ∧
          logged.lastOutput = Logger.nextOutput logger.lastOutput (forces outcome) now) ∨
      ¬ (Handled outcome ∧ (forces outcome = true → logger.lastOutput ≠ some now)) ∧
        ∃ raised, reportOutcome logger outcome now = .error raised := by
  cases shown : recordOf outcome with
  | none =>
      have unhandled : ¬ Handled outcome := by simp [Handled, shown]
      cases reported : reportOutcome logger outcome now with
      | error raised => exact .inr ⟨fun both => unhandled both.1, raised, rfl⟩
      | ok result =>
          rw [reportOutcome_ok reported] at shown
          contradiction
  | some record =>
      have handled : Handled outcome := by simp [Handled, shown]
      rcases logger.log_cases (forces outcome) now with ⟨⟨force, same⟩, raised, logs⟩ | ⟨apart, logged, logs, output⟩
      · refine .inr ⟨fun both => both.2 force same, raised, ?_⟩
        cases outcome with
        | ok result => contradiction
        | error thrown =>
            change exceptionRecord thrown = some record at shown
            change logger.log true now = .error raised at logs
            simp [reportOutcome, shown, logs, Except.map]
      · refine .inl ⟨⟨handled, apart⟩, logged, record, ?_, output⟩
        cases outcome with
        | ok result =>
            change resultRecord result = some record at shown
            change logger.log false now = .ok logged at logs
            simp [reportOutcome, logs, Except.bind, shown]
        | error thrown =>
            change exceptionRecord thrown = some record at shown
            change logger.log true now = .ok logged at logs
            simp [reportOutcome, shown, logs, Except.map]

namespace ScanLoop

/-- The environment fixes the outcome that the task for the queued path with this number will have. -/
def outcomeAt (config : ScanConfig) (paths : List Str) (number : Nat) : Outcome :=
  config.outcome number (paths.getD number [])

def outcomeOf (config : ScanConfig) (paths : List Str) : TaskName → Option Record
  | .scan number => recordOf (outcomeAt config paths number)
  | .ready _ => none

/-- The queue is finished, every task is a scan, and records and tasks account for all scans. -/
structure Accounted (config : ScanConfig) (paths : List Str) (loop : ScanLoop) : Prop where
  finished : loop.filesToScan.finishedFlag = true
  noReady : loop.readyTasks = [] ∧ loop.fileReadyTask = none
  named : ∀ task ∈ loop.tasks, ∃ number < loop.scans.length, task = .scan number
  order : loop.scans.map ScanTask.path ++ loop.filesToScan.q = paths
  outcomes : ∀ number task outcome, loop.scans[number]? = some task →
    task.outcome = some outcome → outcome = outcomeAt config paths number
  unfinished : ∀ number task, loop.scans[number]? = some task → task.outcome = none →
    .scan number ∈ loop.tasks
  account : (loop.written.map some ++ loop.tasks.map (outcomeOf config paths)).Perm
    ((List.range loop.scans.length).map (recordOf ∘ outcomeAt config paths))

/-- A queued path weighs two, an unfinished task two and a finished one one. -/
def weight (loop : ScanLoop) : Nat :=
  2 * loop.filesToScan.len + loop.tasks.length + loop.tasks.countP fun task => !loop.doneTask task

variable {config : ScanConfig} {paths : List Str} {loop : ScanLoop}

theorem getNowait_ok {queue after : FinishableQueue Str} {path : Str}
    (taken : queue.getNowait = (.ok path, after)) :
    queue.q = path :: after.q ∧ after.finishedFlag = queue.finishedFlag := by
  unfold FinishableQueue.getNowait at taken
  split at taken
  · rename_i item others same
    obtain ⟨item, rfl⟩ := Prod.mk.inj taken
    exact ⟨by rw [same, Except.ok.inj item], rfl⟩
  · simp at taken

theorem getNowait_error {queue after : FinishableQueue Str} {raised : QueueError}
    (taken : queue.getNowait = (.error raised, after)) : queue.q = [] := by
  unfold FinishableQueue.getNowait at taken
  split at taken
  · simp at taken
  · assumption

/-- A new task is unfinished, and it leaves the other tasks as they are. -/
theorem doneTask_startScan (accounted : Accounted config paths loop) (path : Str)
    (queue : FinishableQueue Str) :
    (loop.startScan path queue).doneTask (.scan loop.scans.length) = false ∧
      ∀ task ∈ loop.tasks, (loop.startScan path queue).doneTask task = loop.doneTask task := by
  constructor
  · simp [doneTask, startScan]
  · intro task member
    obtain ⟨number, small, rfl⟩ := accounted.named task member
    simp [doneTask, startScan, List.getElem?_append_left small]

theorem weight_startScan (accounted : Accounted config paths loop) {path : Str}
    {queue : FinishableQueue Str} (taken : loop.filesToScan.getNowait = (.ok path, queue)) :
    (loop.startScan path queue).weight = loop.weight := by
  obtain ⟨fresh, same⟩ := doneTask_startScan accounted path queue
  have unfinished : (loop.startScan path queue).tasks.countP
      (fun task => !(loop.startScan path queue).doneTask task) =
      loop.tasks.countP (fun task => !loop.doneTask task) + 1 := by
    change (loop.tasks ++ [TaskName.scan loop.scans.length]).countP _ = _
    rw [List.countP_append, List.countP_congr (fun task member => by rw [same task member])]
    simp [fresh]
  unfold weight
  rw [unfinished]
  simp only [startScan, FinishableQueue.len, (getNowait_ok taken).1, List.length_cons,
    List.length_append, List.length_nil]
  omega

/-- A started scan is in the set like the other unfinished ones. -/
theorem unfinished_startScan (path : Str) (queue : FinishableQueue Str)
    (unfinished : ∀ number task, loop.scans[number]? = some task → task.outcome = none →
      .scan number ∈ loop.tasks) (number : Nat) (task : ScanTask)
    (stored : (loop.startScan path queue).scans[number]? = some task) (pending : task.outcome = none) :
    .scan number ∈ (loop.startScan path queue).tasks := by
  change (loop.scans ++ [(⟨path, none⟩ : ScanTask)])[number]? = some task at stored
  change TaskName.scan number ∈ loop.tasks ++ [.scan loop.scans.length]
  rw [Transition.getElem?_snoc] at stored
  split at stored
  · rename_i last
    simp [last]
  · exact List.mem_append_left _ (unfinished number task stored pending)

/-- Starting a scan moves one path from the queue to the tasks. -/
theorem accounted_startScan (accounted : Accounted config paths loop) {path : Str}
    {queue : FinishableQueue Str} (taken : loop.filesToScan.getNowait = (.ok path, queue)) :
    Accounted config paths (loop.startScan path queue) := by
  obtain ⟨items, flag⟩ := getNowait_ok taken
  refine ⟨flag.trans accounted.finished, accounted.noReady, ?_, ?_, ?_, ?_, ?_⟩
  · intro task member
    change ∃ number < (loop.scans ++ [(⟨path, none⟩ : ScanTask)]).length, task = .scan number
    rw [List.length_append]
    cases List.mem_append.mp member with
    | inl old =>
        obtain ⟨number, small, same⟩ := accounted.named task old
        exact ⟨number, Nat.lt_add_right _ small, same⟩
    | inr new => exact ⟨loop.scans.length, by simp, List.mem_singleton.mp new⟩
  · rw [← accounted.order, items]
    simp [startScan]
  · intro number task outcome stored ended
    change (loop.scans ++ [(⟨path, none⟩ : ScanTask)])[number]? = some task at stored
    rw [Transition.getElem?_snoc] at stored
    split at stored
    · obtain rfl := Option.some.inj stored
      contradiction
    · exact accounted.outcomes number task outcome stored ended
  · exact unfinished_startScan path queue accounted.unfinished
  · simp only [startScan, List.map_append, List.map_cons, List.map_nil, List.length_append,
      List.length_cons, List.length_nil, Nat.zero_add, List.range_succ, outcomeOf, Function.comp]
    rw [← List.append_assoc]
    exact accounted.account.append_right _

/-- The inner loop keeps what the start of a scan keeps. -/
theorem fill_keeps {maxScans : Int} (invariant : ScanLoop → Prop)
    (starts : ∀ loop path queue, invariant loop → (loop.tasks.length : Int) < maxScans →
      loop.filesToScan.getNowait = (.ok path, queue) → invariant (loop.startScan path queue))
    (fuel : Nat) (holds : invariant loop) : invariant (fill maxScans fuel loop) := by
  induction fuel generalizing loop with
  | zero => exact holds
  | succ fuel ih =>
      unfold fill
      split
      · rename_i allowed
        split
        · rename_i path queue taken
          exact ih (starts loop path queue holds allowed.1 taken)
        · exact holds
      · exact holds

/-- With enough fuel the inner loop stops at one of its two tests. -/
theorem fill_stops (maxScans : Int) (fuel : Nat) (enough : loop.filesToScan.len ≤ fuel) :
    maxScans ≤ ((fill maxScans fuel loop).tasks.length : Int) ∨
      (fill maxScans fuel loop).filesToScan.len = 0 := by
  induction fuel generalizing loop with
  | zero => exact .inr (Nat.le_zero.mp enough)
  | succ fuel ih =>
      unfold fill
      split
      · split
        · rename_i path queue taken
          apply ih
          rw [FinishableQueue.len, (getNowait_ok taken).1, List.length_cons] at enough
          exact Nat.le_of_succ_le_succ enough
        · rename_i raised queue taken
          have items := getNowait_error taken
          exact .inr (by simp [FinishableQueue.len, items])
      · omega

/-- The inner loop keeps the account. -/
theorem fill_spec (fuel : Nat) (accounted : Accounted config paths loop) :
    Accounted config paths (fill config.maxScans fuel loop) ∧
      (fill config.maxScans fuel loop).weight = loop.weight := by
  apply fill_keeps (fun next => Accounted config paths next ∧ next.weight = loop.weight) _ fuel
    ⟨accounted, rfl⟩
  intro next path queue kept _ taken
  exact ⟨accounted_startScan kept.1 taken, (weight_startScan kept.1 taken).trans kept.2⟩

/-- A finished queue is not awaited. -/
theorem awaitQueue_finished (accounted : Accounted config paths loop) :
    loop.awaitQueue = loop := by
  unfold awaitQueue
  rw [if_neg]
  intro awaits
  obtain ⟨empty, unfinished, _⟩ := awaits
  have items : loop.filesToScan.q = [] := List.length_eq_zero_iff.mp empty
  simp [FinishableQueue.finished, accounted.finished, items] at unfinished

/-- Between two waits the loop has returned with nothing left, or it waits for a task. -/
structure Settled (config : ScanConfig) (paths : List Str) (loop : ScanLoop) : Prop where
  accounted : Accounted config paths loop
  control : (loop.control = .returned ∧ loop.tasks = [] ∧ loop.filesToScan.q = []) ∨
    (loop.control = .waiting ∧ loop.tasks ≠ [])

theorem Accounted.setControl (accounted : Accounted config paths loop) (control : Control) :
    Accounted config paths { loop with control := control } :=
  ⟨accounted.finished, accounted.noReady, accounted.named, accounted.order, accounted.outcomes,
    accounted.unfinished, accounted.account⟩

theorem enter_spec (positive : 1 ≤ config.maxScans) (accounted : Accounted config paths loop) :
    Settled config paths (loop.enter config.maxScans) ∧
      (loop.enter config.maxScans).weight = loop.weight := by
  obtain ⟨filled, weight⟩ := fill_spec loop.filesToScan.len accounted
  have stops := fill_stops config.maxScans loop.filesToScan.len (le_refl loop.filesToScan.len)
  unfold enter
  split
  · rename_i allDone
    obtain ⟨finished, empty⟩ := allDone
    have items : loop.filesToScan.q = [] := by
      simpa [FinishableQueue.finished, accounted.finished] using finished
    exact ⟨⟨accounted.setControl _, .inl ⟨rfl, empty, items⟩⟩, rfl⟩
  · rename_i going
    rw [awaitQueue_finished filled]
    generalize fill config.maxScans loop.filesToScan.len loop = next at filled weight stops ⊢
    dsimp only
    split
    · rename_i empty
      exfalso
      apply going
      have drained : next.filesToScan.len = 0 := by
        apply stops.resolve_left
        rw [empty]
        simp
        omega
      have nothing : loop.weight = 0 := by
        rw [← weight, ScanLoop.weight, drained, empty]
        simp
      unfold ScanLoop.weight at nothing
      have items : loop.filesToScan.q = [] := List.length_eq_zero_iff.mp (by
        change loop.filesToScan.len = 0
        omega)
      have noTasks : loop.tasks = [] := List.length_eq_zero_iff.mp (by omega)
      exact ⟨by simp [FinishableQueue.finished, accounted.finished, items], noTasks⟩
    · rename_i nonempty
      exact ⟨⟨filled.setControl _, .inr ⟨rfl, nonempty⟩⟩, weight⟩

end ScanLoop

end ClamavDbscan
