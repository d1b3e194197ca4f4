import ClamavDbscan.Proof.Main.Accounting
import ClamavDbscan.Proof.Queue.Signal

/-
This file proves what holds of the tasks of the scan loop when it enters a wait.
-/

namespace ClamavDbscan.ScanLoop

def isScan : TaskName → Bool
  | .scan _ => true
  | .ready _ => false

/-- Every unfinished scan is in the set, at most `maxScans` scans are, and only the task that the
loop remembers waits for the queue. -/
structure Staffed (config : ScanConfig) (loop : ScanLoop) : Prop where
  signalled : loop.filesToScan.Signalled
  orderly : loop.filesToScan.readyEvent.Orderly loop.readyTasks.length
  mode : loop.filesToScan.finishedFlag = !config.watch
  distinct : loop.tasks.Nodup
  known : ∀ number, .scan number ∈ loop.tasks → number < loop.scans.length
  unfinished : ∀ number task, loop.scans[number]? = some task → task.outcome = none →
    .scan number ∈ loop.tasks
  capacity : (loop.tasks.countP isScan : Int) ≤ config.maxScans
  awaited : ∀ number, .ready number ∈ loop.tasks → loop.fileReadyTask = some number
  alive : ∀ number phase, loop.readyTasks[number]? = some phase → phase ≠ .finished →
    loop.fileReadyTask = some number
  registered : ∀ number, loop.readyTasks[number]? = some .waiting →
    number ∈ loop.filesToScan.readyEvent.waiting ++ loop.filesToScan.readyEvent.resolved
  handled : ∀ task ∈ loop.scans, ∀ outcome ∈ task.outcome, Handled outcome

/-- The task that the loop remembers is in the set. -/
def Held (loop : ScanLoop) : Prop :=
  ∀ number, loop.fileReadyTask = some number →
    .ready number ∈ loop.tasks ∧ number < loop.readyTasks.length

/-- A wait has a task, and without a free place it has all the scans that it can have. -/
structure Suspended (config : ScanConfig) (loop : ScanLoop) : Prop where
  nonempty : loop.tasks ≠ []
  held : loop.Held
  filled : config.maxScans ≤ (loop.tasks.length : Int) ∨ loop.fileReadyTask ≠ none ∨
    loop.filesToScan.finishedFlag = true ∧ loop.filesToScan.q = []

/-- The event is clear, and it has not woken the task that waits for it. -/
def Quiet (loop : ScanLoop) : Prop :=
  loop.filesToScan.readyEvent.value = false ∧ ∃ number, loop.fileReadyTask = some number ∧
    loop.readyTasks[number]? ≠ some .finished ∧
    number ∉ loop.filesToScan.readyEvent.resolved

/-- Every task that waits for the queue but a quiet one has been woken by a put of its own. -/
structure Paced (puts : Nat) (loop : ScanLoop) : Prop where
  bound : loop.readyTasks.length ≤ puts + 1
  woken : ¬ loop.Quiet → loop.readyTasks.length ≤ puts

/-- The inner loop adds scans, and it may clear the event. -/
structure Fills (loop next : ScanLoop) : Prop where
  readyTasks : next.readyTasks = loop.readyTasks
  fileReadyTask : next.fileReadyTask = loop.fileReadyTask
  event : next.filesToScan.readyEvent = loop.filesToScan.readyEvent ∨
    next.filesToScan.readyEvent = loop.filesToScan.readyEvent.clear
  tasks : loop.tasks ⊆ next.tasks
  total : next.tasks.length + next.filesToScan.len = loop.tasks.length + loop.filesToScan.len

theorem Fills.refl (loop : ScanLoop) : Fills loop loop :=
  ⟨rfl, rfl, .inl rfl, List.Subset.refl _, rfl⟩

theorem Fills.trans {first second third : ScanLoop} (front : Fills first second)
    (back : Fills second third) : Fills first third := by
  refine ⟨back.readyTasks.trans front.readyTasks, back.fileReadyTask.trans front.fileReadyTask, ?_,
    List.Subset.trans front.tasks back.tasks, back.total.trans front.total⟩
  rcases back.event with same | cleared
  · rw [same]
    exact front.event
  · rcases front.event with same | twice
    · exact .inr (by rw [cleared, same])
    · exact .inr (by rw [cleared, twice]; rfl)

variable {config : ScanConfig} {loop next : ScanLoop} {puts : Nat}

theorem fills_startScan {path : Str} {queue : FinishableQueue Str}
    (taken : loop.filesToScan.getNowait = (.ok path, queue)) :
    Fills loop (loop.startScan path queue) := by
  obtain ⟨items, same⟩ := FinishableQueue.getNowait_eq taken
  refine ⟨rfl, rfl, ?_, List.subset_append_left _ _, ?_⟩
  · change queue.readyEvent = _ ∨ queue.readyEvent = _
    rw [same]
    dsimp only
    split
    · exact .inr rfl
    · exact .inl rfl
  · change (loop.tasks ++ [TaskName.scan loop.scans.length]).length + queue.q.length =
      loop.tasks.length + loop.filesToScan.q.length
    rw [items, List.length_append, List.length_singleton, List.length_cons]
    omega

/-- A cleared event keeps its waiters and what it has woken. -/
theorem Fills.waiters (fills : Fills loop next) :
    next.filesToScan.readyEvent.waiting = loop.filesToScan.readyEvent.waiting ∧
      next.filesToScan.readyEvent.resolved = loop.filesToScan.readyEvent.resolved ∧
      (loop.filesToScan.readyEvent.value = false → next.filesToScan.readyEvent.value = false) := by
  rcases fills.event with same | cleared
  · rw [same]
    exact ⟨rfl, rfl, id⟩
  · rw [cleared]
    exact ⟨rfl, rfl, fun _ => rfl⟩

theorem Staffed.startScan (staffed : Staffed config loop)
    (room : (loop.tasks.length : Int) < config.maxScans) {path : Str} {queue : FinishableQueue Str}
    (taken : loop.filesToScan.getNowait = (.ok path, queue)) :
    Staffed config (loop.startScan path queue) := by
  have fills := fills_startScan taken
  have fresh : TaskName.scan loop.scans.length ∉ loop.tasks :=
    fun member => Nat.lt_irrefl _ (staffed.known _ member)
  obtain ⟨waiting, resolved, _⟩ := fills.waiters
  refine ⟨staffed.signalled.getNowait taken, ?_, (getNowait_ok taken).2.trans staffed.mode,
    ?_, ?_, ?_, ?_, ?_, staffed.alive, ?_, ?_⟩
  · rcases fills.event with same | cleared
    · rw [same]
      exact staffed.orderly
    · rw [cleared]
      exact staffed.orderly.clear
  · exact List.nodup_append.mpr ⟨staffed.distinct, by simp, by
      intro task member other new
      rw [List.mem_singleton.mp new]
      exact fun same => fresh (same ▸ member)⟩
  · intro number member
    change number < (loop.scans ++ [(⟨path, none⟩ : ScanTask)]).length
    rw [List.length_append, List.length_singleton]
    rcases List.mem_append.mp member with old | new
    · exact Nat.lt_succ_of_lt (staffed.known number old)
    · obtain rfl := TaskName.scan.inj (List.mem_singleton.mp new)
      exact Nat.lt_succ_self _
  · exact unfinished_startScan path queue staffed.unfinished
  · change ((loop.tasks ++ [TaskName.scan loop.scans.length]).countP isScan : Int) ≤ _
    have fewer : loop.tasks.countP isScan ≤ loop.tasks.length := List.countP_le_length
    rw [List.countP_append, List.countP_singleton, isScan, if_pos rfl]
    omega
  · intro number member
    rcases List.mem_append.mp member with old | new
    · exact staffed.awaited number old
    · simp at new
  · intro number stored
    rw [waiting, resolved]
    exact staffed.registered number stored
  · intro task member outcome ended
    rcases List.mem_append.mp member with old | new
    · exact staffed.handled task old outcome ended
    · rw [List.mem_singleton.mp new] at ended
      contradiction

/-- The inner loop keeps the tasks in order. -/
theorem fill_staffed (fuel : Nat) (staffed : Staffed config loop) :
    Staffed config (fill config.maxScans fuel loop) ∧ Fills loop (fill config.maxScans fuel loop) := by
  apply fill_keeps (fun next => Staffed config next ∧ Fills loop next) _ fuel ⟨staffed, .refl _⟩
  intro next path queue kept room taken
  exact ⟨kept.1.startScan room taken, kept.2.trans (fills_startScan taken)⟩

/-- The inner loop makes no quiet task awake. -/
theorem Paced.fills (paced : Paced puts loop) (fills : Fills loop next) : Paced puts next := by
  obtain ⟨_, resolved, clear⟩ := fills.waiters
  refine ⟨fills.readyTasks ▸ paced.bound, ?_⟩
  intro awake
  rw [fills.readyTasks]
  apply paced.woken
  intro quiet
  obtain ⟨value, number, remembered, unfinished, unwoken⟩ := quiet
  exact awake ⟨clear value, number, fills.fileReadyTask.trans remembered,
    fills.readyTasks ▸ unfinished, resolved ▸ unwoken⟩

theorem Held.fills (held : loop.Held) (fills : Fills loop next) : next.Held := by
  intro number remembered
  obtain ⟨member, known⟩ := held number (fills.fileReadyTask ▸ remembered)
  exact ⟨fills.tasks member, fills.readyTasks ▸ known⟩

/-- The task that waits for the queue is created while the event is clear. -/
structure Awaits (next after : ScanLoop) : Prop where
  queue : after.filesToScan = next.filesToScan
  tasks : next.tasks <+: after.tasks
  clear : next.readyTasks.length < after.readyTasks.length →
    after.filesToScan.readyEvent.value = false
  waits : after.filesToScan.len = 0 → after.filesToScan.finished = false →
    after.fileReadyTask ≠ none

section AddReady

variable (staffed : Staffed config loop) (none : loop.fileReadyTask = none)

include staffed none

theorem Staffed.not_ready (number : Nat) : .ready number ∉ loop.tasks := by
  intro member
  have remembered := staffed.awaited number member
  rw [none] at remembered
  contradiction

/-- The new task for the queue is the only one, and the loop remembers it. -/
theorem Staffed.addReady : Staffed config { loop with
    readyTasks := loop.readyTasks ++ [.created]
    tasks := loop.tasks ++ [.ready loop.readyTasks.length]
    fileReadyTask := some loop.readyTasks.length } := by
  have fresh := staffed.not_ready none
  refine ⟨staffed.signalled, ?_, staffed.mode, ?_, ?_, ?_, ?_, ?_, ?_, ?_, staffed.handled⟩
  · exact staffed.orderly.mono (by simp)
  · refine List.nodup_append.mpr ⟨staffed.distinct, by simp, ?_⟩
    intro task member other new
    rw [List.mem_singleton.mp new]
    exact fun same => fresh _ (same ▸ member)
  · intro number member
    rcases List.mem_append.mp member with old | new
    · exact staffed.known number old
    · simp at new
  · exact fun number task stored pending =>
      List.mem_append_left _ (staffed.unfinished number task stored pending)
  · simpa [List.countP_append, isScan] using staffed.capacity
  · intro number member
    rcases List.mem_append.mp member with old | new
    · exact absurd old (fresh number)
    · rw [TaskName.ready.inj (List.mem_singleton.mp new)]
  · intro number phase stored running
    dsimp only at stored ⊢
    rw [Transition.getElem?_snoc] at stored
    split at stored
    · rename_i last
      rw [last]
    · have remembered := staffed.alive number phase stored running
      rw [none] at remembered
      contradiction
  · intro number stored
    dsimp only at stored ⊢
    rw [Transition.getElem?_snoc] at stored
    split at stored
    · simp at stored
    · exact staffed.registered number stored

/-- The new task for the queue is quiet while the event is clear. -/
theorem Paced.addReady (paced : Paced puts loop)
    (clear : loop.filesToScan.readyEvent.value = false) : Paced puts { loop with
      readyTasks := loop.readyTasks ++ [.created]
      tasks := loop.tasks ++ [.ready loop.readyTasks.length]
      fileReadyTask := some loop.readyTasks.length } := by
  have before : loop.readyTasks.length ≤ puts := by
    apply paced.woken
    intro quiet
    obtain ⟨_, number, remembered, _⟩ := quiet
    rw [none] at remembered
    contradiction
  refine ⟨by simpa using before, ?_⟩
  intro awake
  exfalso
  apply awake
  refine ⟨clear, loop.readyTasks.length, rfl, by simp, ?_⟩
  intro member
  exact Nat.lt_irrefl _ (staffed.orderly.known _ (List.mem_append_right _ member))

end AddReady

theorem awaitQueue_spec (staffed : Staffed config loop) (paced : Paced puts loop)
    (held : loop.Held) :
    Staffed config loop.awaitQueue ∧ Paced puts loop.awaitQueue ∧ loop.awaitQueue.Held ∧
      Awaits loop loop.awaitQueue := by
  unfold awaitQueue
  split
  · rename_i awaits
    obtain ⟨empty, unfinished, none⟩ := awaits
    have items : loop.filesToScan.q = [] := List.length_eq_zero_iff.mp empty
    have unflagged : loop.filesToScan.finishedFlag = false := by
      simpa [FinishableQueue.finished, items] using unfinished
    have value := staffed.signalled.clear items unflagged
    refine ⟨staffed.addReady none, paced.addReady staffed none value, ?_, ?_⟩
    · intro number remembered
      obtain rfl := Option.some.inj remembered
      exact ⟨by simp, by simp⟩
    · exact ⟨rfl, List.prefix_append _ _, fun _ => value, fun _ _ => Option.some_ne_none _⟩
  · rename_i stays
    refine ⟨staffed, paced, held, rfl, List.prefix_refl _, fun less => absurd less (Nat.lt_irrefl _), ?_⟩
    intro empty unfinished none
    exact stays ⟨empty, unfinished, none⟩

/-- A loop that goes on has a task for its wait. -/
theorem tasks_ne_nil {after : ScanLoop} (positive : 1 ≤ config.maxScans)
    (going : ¬ (loop.filesToScan.finished = true ∧ loop.tasks = []))
    (staffed : Staffed config loop) (filled : Staffed config next) (fills : Fills loop next)
    (stopped : config.maxScans ≤ (next.tasks.length : Int) ∨ next.filesToScan.len = 0)
    (held : after.Held) (awaits : Awaits next after) : after.tasks ≠ [] := by
  intro empty
  have noNext : next.tasks = [] := List.prefix_nil.mp (empty ▸ awaits.tasks)
  have drained : next.filesToScan.len = 0 := by
    apply stopped.resolve_left
    rw [noNext, List.length_nil]
    omega
  have finished : next.filesToScan.finished = true := by
    by_contra unfinished
    obtain ⟨number, remembered⟩ := Option.ne_none_iff_exists'.mp (awaits.waits
      (awaits.queue ▸ drained) (awaits.queue ▸ Bool.eq_false_iff.mpr unfinished))
    have member := (held number remembered).1
    rw [empty] at member
    contradiction
  apply going
  have noTasks : loop.tasks = [] := List.subset_nil.mp (noNext ▸ fills.tasks)
  have total := fills.total
  rw [noNext, drained, noTasks, List.length_nil, Nat.zero_add, Nat.zero_add] at total
  have items : loop.filesToScan.q = [] := List.length_eq_zero_iff.mp total.symm
  have itemsNext : next.filesToScan.q = [] := List.length_eq_zero_iff.mp drained
  refine ⟨?_, noTasks⟩
  rw [FinishableQueue.finished, itemsNext, filled.mode] at finished
  rw [FinishableQueue.finished, items, staffed.mode]
  exact finished

/-- From its test the loop returns, or it waits for a set that has a task. -/
theorem enter_staffed (positive : 1 ≤ config.maxScans) (staffed : Staffed config loop)
    (paced : Paced puts loop) (held : loop.Held) :
    let after := loop.enter config.maxScans
    Staffed config after ∧ Paced puts after ∧
      (after.control = .returned ∨ after.control = .waiting ∧ Suspended config after) ∧
      (loop.readyTasks.length < after.readyTasks.length →
        after.filesToScan.readyEvent.value = false) := by
  unfold enter
  split
  · exact ⟨⟨staffed.signalled, staffed.orderly, staffed.mode, staffed.distinct, staffed.known,
      staffed.unfinished, staffed.capacity, staffed.awaited, staffed.alive, staffed.registered,
      staffed.handled⟩,
      ⟨paced.bound, paced.woken⟩, .inl rfl, fun less => absurd less (Nat.lt_irrefl _)⟩
  · rename_i going
    obtain ⟨filled, fills⟩ := fill_staffed loop.filesToScan.len staffed
    have stopped := fill_stops config.maxScans loop.filesToScan.len (Nat.le_refl loop.filesToScan.len)
    obtain ⟨kept, steady, stays, awaits⟩ :=
      awaitQueue_spec filled (paced.fills fills) (held.fills fills)
    have nonempty := tasks_ne_nil positive going staffed filled fills stopped stays awaits
    generalize fill config.maxScans loop.filesToScan.len loop = next at *
    generalize next.awaitQueue = after at *
    dsimp only
    rw [if_neg nonempty]
    refine ⟨⟨kept.signalled, kept.orderly, kept.mode, kept.distinct, kept.known, kept.unfinished,
      kept.capacity, kept.awaited, kept.alive, kept.registered, kept.handled⟩, ⟨steady.bound, steady.woken⟩,
      .inr ⟨rfl, nonempty, stays, ?_⟩, ?_⟩
    · rcases stopped with full | drained
      · exact .inl (full.trans (by exact_mod_cast awaits.tasks.length_le))
      · rw [← awaits.queue] at drained
        have items : after.filesToScan.q = [] := List.length_eq_zero_iff.mp drained
        cases finished : after.filesToScan.finished with
        | false => exact .inr (.inl (awaits.waits drained finished))
        | true =>
            rw [FinishableQueue.finished, items] at finished
            exact .inr (.inr ⟨finished, items⟩)
    · rw [← fills.readyTasks]
      exact awaits.clear

end ClamavDbscan.ScanLoop
