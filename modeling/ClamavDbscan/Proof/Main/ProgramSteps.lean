import ClamavDbscan.Construction.Main.Program
import ClamavDbscan.Library.Simulation
import ClamavDbscan.Proof.Main.EveryFile
import ClamavDbscan.Proof.Scanner.SessionSteps
import ClamavDbscan.Proof.Watch.DeferredScans

/-
This file states what each step of the program does, and that its parts always agree.
-/

namespace ClamavDbscan

namespace ScanLoop

variable {loop next after : ScanLoop} {paths : List Str}

/-- These paths have gone from the queue to new tasks, and the rest of the queue is as it was. -/
structure Starts (loop after : ScanLoop) (paths : List Str) : Prop where
  scans : after.scans = loop.scans ++ paths.map fun path => ⟨path, none⟩
  queue : loop.filesToScan.q = paths ++ after.filesToScan.q
  mode : after.filesToScan.finishedFlag = loop.filesToScan.finishedFlag
  waiters : after.filesToScan.waiters = loop.filesToScan.waiters

theorem Starts.refl (loop : ScanLoop) : Starts loop loop [] :=
  ⟨(List.append_nil _).symm, rfl, rfl, rfl⟩

theorem Starts.startScan (starts : Starts loop next paths) {path : Str} {queue : FinishableQueue Str}
    (taken : next.filesToScan.getNowait = (.ok path, queue)) :
    Starts loop (next.startScan path queue) (paths ++ [path]) := by
  obtain ⟨items, mode⟩ := getNowait_ok taken
  have waiters : queue.waiters = next.filesToScan.waiters := by
    rw [FinishableQueue.getNowait, items] at taken
    exact (congrArg FinishableQueue.waiters (Prod.mk.inj taken).2).symm
  refine ⟨?_, ?_, mode.trans starts.mode, waiters.trans starts.waiters⟩
  · simp [ScanLoop.startScan, starts.scans]
  · rw [starts.queue, items]
    simp [ScanLoop.startScan]

theorem fill_starts (maxScans : Int) (fuel : Nat) (loop : ScanLoop) :
    ∃ paths, Starts loop (fill maxScans fuel loop) paths := by
  apply fill_keeps (fun next => ∃ paths, Starts loop next paths) _ fuel ⟨[], .refl loop⟩
  intro next path queue started _ taken
  obtain ⟨paths, starts⟩ := started
  exact ⟨paths ++ [path], starts.startScan taken⟩

theorem awaitQueue_keeps (loop : ScanLoop) :
    loop.awaitQueue.scans = loop.scans ∧ loop.awaitQueue.filesToScan = loop.filesToScan := by
  unfold awaitQueue
  split <;> exact ⟨rfl, rfl⟩

/-- From its test to its wait the loop only starts scans. -/
theorem enter_starts (maxScans : Int) (loop : ScanLoop) :
    ∃ paths, Starts loop (loop.enter maxScans) paths := by
  unfold enter
  split
  · exact ⟨[], (List.append_nil _).symm, rfl, rfl, rfl⟩
  · obtain ⟨paths, starts⟩ := fill_starts maxScans loop.filesToScan.len loop
    obtain ⟨scans, queue⟩ := awaitQueue_keeps (fill maxScans loop.filesToScan.len loop)
    refine ⟨paths, ?_⟩
    dsimp only
    split <;>
      exact ⟨scans.trans starts.scans, queue ▸ starts.queue, queue ▸ starts.mode,
        queue ▸ starts.waiters⟩

theorem reportOne_keeps {task : TaskName} {now : ℚ} (reported : loop.reportOne task now = .ok after) :
    after.scans = loop.scans ∧ after.filesToScan = loop.filesToScan := by
  cases task with
  | ready number =>
      simp only [reportOne] at reported
      split at reported <;> (obtain rfl := Except.ok.inj reported; exact ⟨rfl, rfl⟩)
  | scan number =>
      simp only [reportOne] at reported
      split at reported
      · rename_i outcome _
        cases shown : reportOutcome loop.logger outcome now with
        | error raised =>
            rw [shown] at reported
            cases reported
        | ok result =>
            rw [shown] at reported
            obtain rfl := Except.ok.inj reported
            exact ⟨rfl, rfl⟩
      · obtain rfl := Except.ok.inj reported
        exact ⟨rfl, rfl⟩

/-- Reporting changes neither the scans nor the queue. -/
theorem reportAll_keeps (completed : List (TaskName × ℚ)) (loop : ScanLoop) :
    (reportAll completed loop).scans = loop.scans ∧
      (reportAll completed loop).filesToScan = loop.filesToScan := by
  induction completed generalizing loop with
  | nil => exact ⟨rfl, rfl⟩
  | cons entry others ih =>
      rw [reportAll]
      cases reported : loop.reportOne entry.1 entry.2 with
      | error raised => exact ⟨rfl, rfl⟩
      | ok after =>
          obtain ⟨scans, queue⟩ := reportOne_keeps reported
          obtain ⟨laterScans, laterQueue⟩ := ih after
          exact ⟨laterScans.trans scans, laterQueue.trans queue⟩

theorem step_resume {config : ScanConfig} {completed : List (TaskName × ℚ)}
    (stepped : step config loop (.resume completed) = some after) :
    loop.control = .waiting ∧ completed ≠ [] ∧
      (completed.map Prod.fst).Perm (loop.tasks.filter loop.doneTask) ∧
      after = if (reportAll completed loop.swap).control = .waiting then
        (reportAll completed loop.swap).enter config.maxScans else reportAll completed loop.swap := by
  obtain ⟨waiting, moved⟩ := Option.ite_none_right_eq_some.mp stepped
  obtain ⟨⟨nonempty, all⟩, same⟩ := Option.ite_none_right_eq_some.mp moved
  refine ⟨waiting, nonempty, all, ?_⟩
  dsimp only at same
  split at same <;> rename_i control
  · rw [if_pos control]
    exact (Option.some.inj same).symm
  · rw [if_neg control]
    exact (Option.some.inj same).symm

/-- When the loop resumes it reports, and then it only starts scans. -/
theorem resume_starts {config : ScanConfig} {completed : List (TaskName × ℚ)}
    (stepped : step config loop (.resume completed) = some after) :
    ∃ paths, Starts loop after paths := by
  obtain ⟨_, _, _, rfl⟩ := step_resume stepped
  obtain ⟨scans, queue⟩ := reportAll_keeps completed loop.swap
  split
  · obtain ⟨paths, starts⟩ := enter_starts config.maxScans (reportAll completed loop.swap)
    refine ⟨paths, ?_, ?_, ?_, ?_⟩
    · rw [starts.scans, scans]
      rfl
    · rw [← starts.queue, queue]
      rfl
    · rw [starts.mode, queue]
      rfl
    · rw [starts.waiters, queue]
      rfl
  · refine ⟨[], ?_, ?_, ?_, ?_⟩
    · rw [scans]
      exact (List.append_nil _).symm
    all_goals rw [queue]; rfl

theorem stepReady_keeps {number : Nat} (taken : loop.stepReady number = some after) :
    after.scans = loop.scans ∧ after.filesToScan.q = loop.filesToScan.q ∧
      after.filesToScan.finishedFlag = loop.filesToScan.finishedFlag ∧
      after.filesToScan.waiters = loop.filesToScan.waiters := by
  simp only [stepReady] at taken
  split at taken
  · split at taken <;> (obtain rfl := Option.some.inj taken; exact ⟨rfl, rfl, rfl, rfl⟩)
  · split at taken
    · obtain rfl := Option.some.inj taken
      exact ⟨rfl, rfl, rfl, rfl⟩
    · contradiction
  · contradiction

end ScanLoop

/-- A resumed task leaves an open queue as it is or puts its path. -/
theorem DeferredTask.resume_queue {task after : DeferredTask} {now : LoopTime}
    {q final : FinishableQueue Str} {put : Option Str} (isOpen : QueueOpen q)
    (resumed : task.resume now q = some (after, final, put)) :
    final = match put with
      | some path => (q.put path).2
      | none => q := by
  obtain ⟨path, phase, cancelRequested, createdAt⟩ := task
  obtain ⟨later, stored, _⟩ := isOpen.put path
  cases phase with
  | created =>
      cases cancelRequested with
      | true =>
          simp only [resume, Option.some.injEq, Prod.mk.injEq] at resumed
          obtain ⟨rfl, rfl, rfl⟩ := resumed
          rfl
      | false =>
          simp only [resume] at resumed
          split at resumed <;>
            (simp only [Option.some.injEq, Prod.mk.injEq] at resumed
             obtain ⟨rfl, rfl, rfl⟩ := resumed
             rfl)
  | sleeping due =>
      cases cancelRequested with
      | false => simp [resume] at resumed
      | true =>
          simp only [resume, Option.some.injEq, Prod.mk.injEq] at resumed
          obtain ⟨rfl, rfl, rfl⟩ := resumed
          rfl
  | woken =>
      cases cancelRequested with
      | false =>
          simp only [resume, stored, Option.some.injEq, Prod.mk.injEq] at resumed
          obtain ⟨rfl, rfl, rfl⟩ := resumed
          exact (congrArg Prod.snd stored).symm
      | true =>
          simp only [resume, Option.some.injEq, Prod.mk.injEq] at resumed
          obtain ⟨rfl, rfl, rfl⟩ := resumed
          rfl
  | finished ending => simp [resume] at resumed

/-- The watcher changes an open queue only by the puts of its tasks. -/
theorem OnDemand.step_queue {state after : OnDemand} {label : OnDemand.Label}
    (isOpen : QueueOpen state.q) (other : label ≠ .take)
    (stepped : OnDemand.step state label = some after) :
    QueueOpen after.q ∧
      after.q = match putter (state, label) with
        | some (_, path) => (state.q.put path).2
        | none => state.q := by
  cases step_taken stepped with
  | handle event others inbox =>
      rw [handleEvent_q]
      exact ⟨isOpen, rfl⟩
  | resume number task next q put idle stored resumed =>
      refine ⟨(DeferredTask.resume_spec isOpen resumed).2.1, ?_⟩
      have final := DeferredTask.resume_queue isOpen resumed
      simp only [putter, stored, resumed]
      cases put <;> exact final
  | take => contradiction
  | tick | receive | fire | check | reap => exact ⟨isOpen, rfl⟩

namespace Program

variable {κ : Type} {config : ProgramConfig} {clamd : Clamd κ} {program after : Program κ}

/-- These are the effects of the program, one for each label; a call goes on or ends. -/
inductive Taken (config : ProgramConfig) (clamd : Clamd κ) (program : Program κ) :
    Label κ → Program κ → Prop
  | gather (paths : List Str) (left : List (List Str))
      (stage : program.stage = .gathering (paths :: left)) (idle : program.session.watch.inbox = []) :
      Taken config clamd program .gather
        { program.setQueue (putAll program.session.watch.q paths) with stage := .gathering left }
  | scanFiles (stage : program.stage = .gathering []) (idle : program.session.watch.inbox = []) :
      Taken config clamd program .scanFiles (program.beginLoop config)
  | watch (label : OnDemand.Label) (session : Session κ) (watching : config.watch = true)
      (other : label ≠ .take)
      (stepped : Session.step clamd program.session (.watch label) = some session) :
      Taken config clamd program (.watch label)
        ({ program with session := session }.setQueue session.watch.q)
  | change (path : Str) (entry : Except PyException (Entry κ)) (session : Session κ)
      (stepped : Session.step clamd program.session (.change path entry) = some session) :
      Taken config clamd program (.change path entry) { program with session := session }
  | goOn (number : Nat) (now : Str) (session : Session κ)
      (stepped : Session.step clamd program.session (.advance number now) = some session)
      (unfinished : (session.calls[number]?).bind finishedOutcome = none) :
      Taken config clamd program (.advance number now) { program with session := session }
  | finish (number : Nat) (now : Str) (session : Session κ) (outcome : Outcome) (loop : ScanLoop)
      (stepped : Session.step clamd program.session (.advance number now) = some session)
      (finished : (session.calls[number]?).bind finishedOutcome = some outcome)
      (ended : ScanLoop.step (scanConfig config session) program.loop (.finishScan number) = some loop) :
      Taken config clamd program (.advance number now) { program with session := session, loop := loop }
  | read (number : Nat) (session : Session κ)
      (stepped : Session.step clamd program.session (.read number) = some session) :
      Taken config clamd program (.read number) { program with session := session }
  | stepReady (number : Nat) (loop : ScanLoop) (idle : program.session.watch.inbox = [])
      (stepped : program.loop.stepReady number = some loop) :
      Taken config clamd program (.stepReady number) (program.setLoop loop)
  | resume (completed : List (TaskName × ℚ)) (loop : ScanLoop)
      (idle : program.session.watch.inbox = [])
      (stepped : ScanLoop.step (scanConfig config program.session) program.loop (.resume completed) =
        some loop) :
      Taken config clamd program (.resume completed) (program.setLoop loop)

theorem step_waiting {label : Label κ} (stepped : step config clamd program label = some after) :
    program.loop.control = .waiting :=
  (Option.ite_none_right_eq_some.mp stepped).1

theorem step_taken {label : Label κ} (stepped : step config clamd program label = some after) :
    Taken config clamd program label after := by
  obtain ⟨_, moved⟩ := Option.ite_none_right_eq_some.mp stepped
  cases label with
  | gather =>
      dsimp only at moved
      split at moved
      · rename_i paths left stage
        obtain ⟨idle, same⟩ := Option.ite_none_right_eq_some.mp moved
        obtain rfl := Option.some.inj same
        exact .gather paths left stage idle
      · contradiction
  | scanFiles =>
      obtain ⟨⟨stage, idle⟩, same⟩ := Option.ite_none_right_eq_some.mp moved
      obtain rfl := Option.some.inj same
      exact .scanFiles stage idle
  | watch label =>
      obtain ⟨⟨watching, other⟩, same⟩ := Option.ite_none_right_eq_some.mp moved
      obtain ⟨session, taken, rfl⟩ := Option.map_eq_some_iff.mp same
      exact .watch label session watching other taken
  | change path entry =>
      obtain ⟨session, taken, rfl⟩ := Option.map_eq_some_iff.mp moved
      exact .change path entry session taken
  | advance number now =>
      obtain ⟨session, taken, same⟩ := Option.bind_eq_some_iff.mp moved
      split at same
      · rename_i unfinished
        obtain rfl := Option.some.inj same
        exact .goOn number now session taken unfinished
      · rename_i outcome finished
        obtain ⟨loop, ended, rfl⟩ := Option.map_eq_some_iff.mp same
        exact .finish number now session outcome loop taken finished ended
  | read number =>
      obtain ⟨session, taken, rfl⟩ := Option.map_eq_some_iff.mp moved
      exact .read number session taken
  | stepReady number =>
      obtain ⟨idle, same⟩ := Option.ite_none_right_eq_some.mp moved
      obtain ⟨loop, taken, rfl⟩ := Option.map_eq_some_iff.mp same
      exact .stepReady number loop idle taken
  | resume completed =>
      obtain ⟨idle, same⟩ := Option.ite_none_right_eq_some.mp moved
      obtain ⟨loop, taken, rfl⟩ := Option.map_eq_some_iff.mp same
      exact .resume completed loop idle taken

/-- The task of a call has its path and its outcome. -/
def taskOf (call : Call κ) : ScanTask := ⟨call.path, finishedOutcome call⟩

@[simp] theorem taskOf_newCall (path : Str) : taskOf (newCall ⟨path, none⟩ : Call κ) = ⟨path, none⟩ := rfl

/-- The parts of the program share the queue and the scans. -/
structure Coherent (config : ProgramConfig) (program : Program κ) : Prop where
  queue : program.loop.filesToScan = program.session.watch.q
  scans : program.loop.scans = program.session.calls.map taskOf
  waiters : program.session.watch.q.waiters = []
  mode : program.session.watch.q.finishedFlag = true ↔
    config.watch = false ∧ program.stage = .scanning
  before : ∀ left, program.stage = .gathering left →
    program.loop = { beforeLoop with filesToScan := program.session.watch.q }

/-- These paths are put into the queue in the step. -/
def requestedAt (program : Program κ) : Label κ → List Str
  | .gather =>
      match program.stage with
      | .gathering (paths :: _) => paths
      | _ => []
  | .watch label => ((OnDemand.putter (program.session.watch, label)).map Prod.snd).toList
  | _ => []

/-- These are all paths that have been put, in their order. -/
def requested (past : List (Program κ × Label κ)) : List Str := Transition.answers requestedAt past

/-- The paths of the scans and of the queue are those that have been put. -/
def InOrder (program : Program κ) (paths : List Str) : Prop :=
  program.loop.scans.map ScanTask.path ++ program.session.watch.q.q = paths

@[simp] theorem map_taskOf_noteRemoval (session : Session κ) (path : Option Str) :
    (session.noteRemoval path).calls.map taskOf = session.calls.map taskOf := by
  cases path with
  | none => rfl
  | some path =>
      change (session.calls.map _).map taskOf = _
      rw [List.map_map]
      apply List.map_congr_left
      intro call _
      simp only [Function.comp_apply]
      split <;> rfl

/-- A call that goes on was not finished, and it keeps its path. -/
theorem step_advance {session next : Session κ} {number : Nat} {now : Str}
    (stepped : Session.step clamd session (.advance number now) = some next) :
    ∃ call later files, session.calls[number]? = some call ∧ finishedOutcome call = none ∧
      Call.Advanced session.disk session.watch.files now call later files ∧
      later.path = call.path ∧ session.watch.inbox = [] ∧
      next = { session with
        watch := { session.watch with files := files }
        calls := session.calls.set number later
        removed := Session.noteStore session.removed call later } := by
  obtain ⟨idle, moved⟩ := Option.ite_none_right_eq_some.mp stepped
  obtain ⟨call, stored, moved⟩ := Option.bind_eq_some_iff.mp moved
  obtain ⟨⟨later, files⟩, advanced, rfl⟩ := Option.map_eq_some_iff.mp moved
  have effect := Call.advance_advanced advanced
  refine ⟨call, later, files, stored, ?_, effect, ?_, idle, rfl⟩
  · unfold Call.advance at advanced
    unfold finishedOutcome
    split <;> simp_all
  · cases effect <;> rfl

theorem step_finishScan {config : ScanConfig} {loop after : ScanLoop} {number : Nat}
    (stepped : ScanLoop.step config loop (.finishScan number) = some after) :
    ∃ path, loop.scans[number]? = some ⟨path, none⟩ ∧
      after = { loop with scans := loop.scans.set number ⟨path, some (config.outcome number path)⟩ } := by
  obtain ⟨_, moved⟩ := Option.ite_none_right_eq_some.mp stepped
  dsimp only at moved
  split at moved
  · rename_i path stored
    exact ⟨path, stored, (Option.some.inj moved).symm⟩
  · contradiction

theorem map_setLoop {loop : ScanLoop} {paths : List Str} (coherent : Coherent config program)
    (scans : loop.scans = program.loop.scans ++ paths.map fun path => ⟨path, none⟩) :
    (program.setLoop loop).session.calls = program.session.calls ++
        paths.map (fun path => newCall ⟨path, none⟩) ∧
      loop.scans = (program.setLoop loop).session.calls.map taskOf := by
  have counted : program.loop.scans.length = program.session.calls.length := by
    rw [coherent.scans, List.length_map]
  have calls : (program.setLoop loop).session.calls = program.session.calls ++
      paths.map (fun path => newCall ⟨path, none⟩) := by
    simp only [setLoop, scans, ← counted, List.drop_left, List.map_map]
    rfl
  refine ⟨calls, ?_⟩
  rw [calls, scans, coherent.scans, List.map_append, List.map_map]
  rfl

/-- The loop takes what it needs from the front of the queue. -/
theorem setLoop_spec {loop : ScanLoop} {paths puts : List Str} (coherent : Coherent config program)
    (inOrder : program.InOrder puts) (scanning : program.stage = .scanning)
    (starts : ScanLoop.Starts program.loop loop paths) :
    Coherent config (program.setLoop loop) ∧ (program.setLoop loop).InOrder puts := by
  obtain ⟨_, tasks⟩ := map_setLoop coherent starts.scans
  refine ⟨⟨rfl, tasks, ?_, ?_, ?_⟩, ?_⟩
  · change loop.filesToScan.waiters = []
    rw [starts.waiters, coherent.queue, coherent.waiters]
  · change loop.filesToScan.finishedFlag = true ↔ config.watch = false ∧ program.stage = .scanning
    rw [starts.mode, coherent.queue, coherent.mode]
  · intro left gathering
    rw [show program.stage = .gathering left from gathering] at scanning
    cases scanning
  · change loop.scans.map ScanTask.path ++ loop.filesToScan.q = puts
    rw [← inOrder, ← coherent.queue, starts.queue, starts.scans, List.map_append, List.map_map]
    simp [Function.comp_def]

/-- Before the loop begins no task of it can run. -/
theorem Coherent.scanning (coherent : Coherent config program) :
    program.stage = .scanning ∨ program.loop.tasks = [] ∧ program.loop.readyTasks = [] := by
  cases stage : program.stage with
  | scanning => exact .inl rfl
  | gathering left =>
      rw [coherent.before left stage]
      exact .inr ⟨rfl, rfl⟩

theorem scanning_of_stepReady {number : Nat} {loop : ScanLoop} (coherent : Coherent config program)
    (stepped : program.loop.stepReady number = some loop) : program.stage = .scanning := by
  apply coherent.scanning.resolve_right
  rintro ⟨_, none⟩
  simp [ScanLoop.stepReady, none] at stepped

theorem scanning_of_resume {completed : List (TaskName × ℚ)} {scan : ScanConfig} {loop : ScanLoop}
    (coherent : Coherent config program)
    (stepped : ScanLoop.step scan program.loop (.resume completed) = some loop) :
    program.stage = .scanning := by
  obtain ⟨_, nonempty, all, _⟩ := ScanLoop.step_resume stepped
  apply coherent.scanning.resolve_right
  rintro ⟨none, _⟩
  rw [none, List.filter_nil, List.perm_nil] at all
  exact nonempty (List.map_eq_nil_iff.mp all)

/-- The session knows the outcome of each call that has ended. -/
theorem outcomes_eq {session : Session κ} {number : Nat} {call : Call κ} {outcome : Outcome}
    (stored : session.calls[number]? = some call) (ended : finishedOutcome call = some outcome) :
    outcomes session number call.path = outcome := by
  simp [outcomes, stored, Option.filter, ended]

/-- A call that ends and its task agree on the outcome. -/
theorem set_taskOf (calls : List (Call κ)) (number : Nat) {call later : Call κ}
    (path : later.path = call.path) :
    (calls.set number later).map taskOf =
      (calls.map taskOf).set number ⟨call.path, finishedOutcome later⟩ := by
  rw [List.map_set, taskOf, path]

theorem setQueue_spec {q : FinishableQueue Str} {paths more : List Str} (stage : Stage)
    (coherent : Coherent config program) (inOrder : program.InOrder paths)
    (items : q.q = program.session.watch.q.q ++ more) (waiters : q.waiters = [])
    (mode : q.finishedFlag = true ↔ config.watch = false ∧ stage = .scanning)
    (before : stage = .scanning ∨ ∃ left, program.stage = .gathering left) :
    Coherent config { program.setQueue q with stage := stage } ∧
      InOrder { program.setQueue q with stage := stage } (paths ++ more) := by
  refine ⟨⟨rfl, coherent.scans, waiters, mode, ?_⟩, ?_⟩
  · intro left gathering
    obtain ⟨earlier, same⟩ := before.resolve_left (fun scanning => by
      rw [show stage = .gathering left from gathering] at scanning
      cases scanning)
    change { program.loop with filesToScan := q } = _
    rw [coherent.before earlier same]
    rfl
  · change program.loop.scans.map ScanTask.path ++ q.q = paths ++ more
    rw [items, ← inOrder, List.append_assoc]

/-- No step of the gathering finishes the queue, and the queue of a `--watch` run is never finished. -/
theorem Coherent.isOpen (coherent : Coherent config program)
    (unfinished : config.watch = true ∨ ∃ left, program.stage = .gathering left) :
    QueueOpen program.session.watch.q := by
  refine ⟨?_, coherent.waiters⟩
  rw [← Bool.not_eq_true, coherent.mode]
  rintro ⟨watch, scanning⟩
  rcases unfinished with watching | ⟨left, gathering⟩
  · rw [watch] at watching
    cases watching
  · rw [gathering] at scanning
    cases scanning

theorem put_q {q : FinishableQueue Str} (isOpen : QueueOpen q) (path : Str) :
    (q.put path).2.q = q.q ++ [path] ∧ QueueOpen (q.put path).2 := by
  obtain ⟨items, rest⟩ := ScanLoop.put_all q isOpen.1 isOpen.2 [path]
  exact ⟨items, rest⟩

theorem finish_q {q : FinishableQueue Str} (isOpen : QueueOpen q) :
    q.finish.2.q = q.q ∧ q.finish.2.waiters = [] ∧ q.finish.2.finishedFlag = true := by
  obtain ⟨unfinished, alone⟩ := isOpen
  simp only [FinishableQueue.finish, unfinished, alone, List.isEmpty_nil, if_true, Bool.false_eq_true,
    if_false]
  exact ⟨rfl, rfl, rfl⟩

/-- A session that goes on leaves the queue and the tasks of its calls to the loop. -/
theorem setSession_spec (session : Session κ) {paths : List Str} (coherent : Coherent config program)
    (inOrder : program.InOrder paths) (queue : session.watch.q = program.session.watch.q)
    (tasks : session.calls.map taskOf = program.session.calls.map taskOf) :
    Coherent config { program with session := session } ∧
      InOrder { program with session := session } paths := by
  refine ⟨⟨?_, coherent.scans.trans tasks.symm, ?_, ?_, ?_⟩, ?_⟩
  · exact coherent.queue.trans queue.symm
  · exact (congrArg FinishableQueue.waiters queue).trans coherent.waiters
  · change session.watch.q.finishedFlag = true ↔ _
    rw [queue]
    exact coherent.mode
  · intro left gathering
    change program.loop = { beforeLoop with filesToScan := session.watch.q }
    rw [queue]
    exact coherent.before left gathering
  · change program.loop.scans.map ScanTask.path ++ session.watch.q.q = paths
    rw [queue]
    exact inOrder

/-- In each step the parts go on together, and what is put comes last. -/
theorem coherent_step {label : Label κ} {paths : List Str} (coherent : Coherent config program)
    (inOrder : program.InOrder paths) (stepped : step config clamd program label = some after) :
    Coherent config after ∧ after.InOrder (paths ++ requestedAt program label) := by
  cases step_taken stepped with
  | gather files left stage _ =>
      have isOpen := coherent.isOpen (.inr ⟨_, stage⟩)
      obtain ⟨items, unfinished, alone⟩ := ScanLoop.put_all _ isOpen.1 isOpen.2 files
      simp only [requestedAt, stage]
      apply setQueue_spec (.gathering left) coherent inOrder items alone _ (.inr ⟨_, stage⟩)
      change (putAll program.session.watch.q files).finishedFlag = true ↔ _
      rw [show (putAll program.session.watch.q files).finishedFlag = false from unfinished]
      simp
  | scanFiles stage _ =>
      have isOpen := coherent.isOpen (.inr ⟨_, stage⟩)
      obtain ⟨items, alone, finished⟩ := finish_q isOpen
      let q := if config.watch then program.session.watch.q else program.session.watch.q.finish.2
      have same : q.q = program.session.watch.q.q ++ [] ∧ q.waiters = [] ∧
          (q.finishedFlag = true ↔ config.watch = false ∧ Stage.scanning = .scanning) := by
        cases watch : config.watch <;> simp [q, watch, items, alone, finished, isOpen.1, isOpen.2]
      obtain ⟨ready, ordered⟩ := setQueue_spec .scanning coherent inOrder same.1 same.2.1
        same.2.2 (.inl rfl)
      obtain ⟨started, starts⟩ := ScanLoop.enter_starts config.maxScans
        { program.setQueue q with stage := .scanning }.loop
      rw [List.append_nil] at ordered
      simp only [requestedAt, List.append_nil]
      have both := setLoop_spec ready ordered rfl starts
      exact both
  | watch label session watching other taken =>
      have isOpen := coherent.isOpen (.inl watching)
      obtain ⟨watch, moved, rfl⟩ := Option.map_eq_some_iff.mp taken
      obtain ⟨later, queue⟩ := OnDemand.step_queue isOpen other moved
      have both := setSession_spec
        ({ ({ program.session with watch := watch }.noteRemoval
            (Session.handledRemoval program.session.watch label)) with
          watch := { watch with q := program.session.watch.q } } : Session κ) coherent inOrder rfl
        (map_taskOf_noteRemoval { program.session with watch := watch } _)
      have items : watch.q.q = program.session.watch.q.q ++ requestedAt program (.watch label) := by
        rw [queue, requestedAt]
        cases OnDemand.putter (program.session.watch, label) with
        | none => simp
        | some put => exact (put_q isOpen put.2).1
      have result := setQueue_spec program.stage both.1 both.2 items later.2
        (by simp [later.1, watching]) (by
          cases program.stage with
          | scanning => exact .inl rfl
          | gathering left => exact .inr ⟨left, rfl⟩)
      rw [Session.noteRemoval_watch]
      generalize Session.handledRemoval program.session.watch label = removal at result ⊢
      cases removal <;> exact result
  | change path entry session taken =>
      obtain rfl := Option.some.inj taken
      simp only [requestedAt, List.append_nil]
      exact setSession_spec _ coherent inOrder rfl rfl
  | goOn number now session taken unfinished =>
      obtain ⟨call, next, files, stored, pending, _, path, _, rfl⟩ := step_advance taken
      have tasks : (program.session.calls.set number next).map taskOf =
          program.session.calls.map taskOf := by
        have inside := (List.getElem?_eq_some_iff.mp stored).1
        have ended : finishedOutcome next = none := by
          simpa [List.getElem?_set_self inside] using unfinished
        rw [set_taskOf _ _ path, ended]
        apply Transition.replace_same
        rw [List.getElem?_map, stored, Option.map_some, taskOf, pending]
      simp only [requestedAt, List.append_nil]
      exact setSession_spec _ coherent inOrder rfl tasks
  | finish number now session outcome loop taken finished ended =>
      obtain ⟨call, next, files, stored, pending, _, path, _, rfl⟩ := step_advance taken
      obtain ⟨file, running, rfl⟩ := step_finishScan ended
      have inside := (List.getElem?_eq_some_iff.mp stored).1
      have ending : finishedOutcome next = some outcome := by
        simpa [List.getElem?_set_self inside] using finished
      have named : file = call.path := by
        rw [coherent.scans, List.getElem?_map, stored, Option.map_some] at running
        exact (congrArg ScanTask.path (Option.some.inj running)).symm
      have reported : (scanConfig config { program.session with
          watch := { program.session.watch with files := files }
          calls := program.session.calls.set number next
          removed := Session.noteStore program.session.removed call next }).outcome number file =
          outcome := by
        rw [named, ← path]
        exact outcomes_eq (List.getElem?_set_self inside) ending
      have tasks : program.loop.scans.set number ⟨file, some outcome⟩ =
          (program.session.calls.set number next).map taskOf := by
        rw [set_taskOf _ _ path, ending, coherent.scans, named]
      rw [reported, tasks]
      simp only [requestedAt, List.append_nil]
      refine ⟨⟨coherent.queue, rfl, coherent.waiters, coherent.mode, ?_⟩, ?_⟩
      · intro left gathering
        have none := coherent.before left gathering
        rw [coherent.scans.symm.trans (congrArg ScanLoop.scans none) |> List.map_eq_nil_iff.mp] at stored
        simp at stored
      · change ((program.session.calls.set number next).map taskOf).map ScanTask.path ++ _ = _
        rw [← inOrder, set_taskOf _ _ path, List.map_set, coherent.scans]
        rw [Transition.replace_same]
        rw [List.getElem?_map, List.getElem?_map, stored]
        rfl
  | read number session taken =>
      obtain ⟨call, stored, moved⟩ := Option.bind_eq_some_iff.mp taken
      obtain ⟨next, replied, rfl⟩ := Option.map_eq_some_iff.mp moved
      have same : taskOf next = taskOf call := by
        unfold Call.read at replied
        split at replied
        · rename_i entry sent
          obtain rfl := Option.some.inj replied
          simp [taskOf, finishedOutcome, sent]
        · contradiction
      have tasks : (program.session.calls.set number next).map taskOf =
          program.session.calls.map taskOf := by
        rw [List.map_set, same]
        apply Transition.replace_same
        rw [List.getElem?_map, stored, Option.map_some]
      simp only [requestedAt, List.append_nil]
      exact setSession_spec _ coherent inOrder rfl tasks
  | stepReady number loop _ taken =>
      have scanning := scanning_of_stepReady coherent taken
      obtain ⟨scans, items, mode, waiters⟩ := ScanLoop.stepReady_keeps taken
      simp only [requestedAt, List.append_nil]
      have starts : ScanLoop.Starts program.loop loop [] :=
        ⟨scans.trans (List.append_nil _).symm, items.symm, mode, waiters⟩
      exact setLoop_spec coherent inOrder scanning starts
  | resume completed loop _ taken =>
      have scanning := scanning_of_resume coherent taken
      obtain ⟨started, starts⟩ := ScanLoop.resume_starts taken
      simp only [requestedAt, List.append_nil]
      exact setLoop_spec coherent inOrder scanning starts

theorem coherent_start {files : Files} (begins : start config files program) :
    Coherent config program ∧ program.InOrder [] := by
  obtain ⟨stage, watch, _, calls, _, loop⟩ := begins
  obtain ⟨_, _, _, q, _⟩ := watch
  refine ⟨⟨?_, ?_, ?_, ?_, ?_⟩, ?_⟩
  · rw [loop, q]
    rfl
  · rw [loop, calls]
    rfl
  · rw [q]
    rfl
  · rw [q, stage]
    simp [FinishableQueue.initial]
  · intro left _
    rw [loop, q]
    rfl
  · rw [InOrder, loop, q]
    rfl

/-- In every state the parts agree, and the scans and the queue are what has been put. -/
theorem coherent_run {files : Files} {past : List (Program κ × Label κ)} {last : Program κ}
    (run : Transition.Run (system config clamd files) past last) :
    Coherent config last ∧ last.InOrder (requested past) := by
  induction run with
  | start begins => exact coherent_start begins
  | @next past state after label _ taken ih =>
      obtain ⟨coherent, inOrder⟩ := coherent_step ih.1 ih.2 taken
      refine ⟨coherent, ?_⟩
      rw [requested, Transition.answers_cons]
      exact inOrder

end Program

end ClamavDbscan
