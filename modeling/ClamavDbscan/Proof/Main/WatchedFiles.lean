import ClamavDbscan.Proof.Main.ProgramParts
import ClamavDbscan.Proof.Watch.WriteEvents

/-
This file proves which files a watching program scans.
-/

namespace ClamavDbscan

open Transition

namespace OnDemand

variable {state : OnDemand} {q : FinishableQueue Str}

/-- The same tasks put on another open queue. -/
theorem putter_elsewhere (isOpen : QueueOpen state.q) (otherOpen : QueueOpen q) (files : Files)
    (label : Label) : putter (state.elsewhere q files, label) = putter (state, label) := by
  cases label with
  | resume number =>
      simp only [putter, elsewhere]
      cases state.manager.tasks[number]? with
      | none => rfl
      | some task =>
          dsimp only
          cases resumed : task.resume state.now state.q with
          | none =>
              cases mirrored : task.resume state.now q with
              | none => rfl
              | some result =>
                  obtain ⟨later, final, put⟩ := result
                  obtain ⟨_, again, _⟩ := DeferredTask.resume_frame otherOpen isOpen mirrored
                  rw [resumed] at again
                  contradiction
          | some result =>
              obtain ⟨later, final, put⟩ := result
              obtain ⟨other, mirrored, _⟩ := DeferredTask.resume_frame isOpen otherOpen resumed
              rw [mirrored]
              cases put <;> rfl
  | tick | receive | handle | fire | check | reap | take => rfl

theorem writeKept_elsewhere (files : Files) {label : Label} (kept : WriteKept state label) :
    WriteKept (state.elsewhere q files) label := by
  cases label <;> exact kept

/-- The watcher handles the first event of its message. -/
def handledEvent (state : OnDemand) : Label → Option FileEvent
  | .handle => state.inbox.head?
  | _ => none

/-- These events leave the inbox, and those behind an event that raises are not handled. -/
def takenEvents (state : OnDemand) : Label → List FileEvent
  | .handle =>
      match state.inbox with
      | [] => []
      | event :: others => if event.Raises then event :: others else [event]
  | _ => []

/-- The handling of an event takes it from the inbox, with the others if it raises. -/
theorem handleEvent_taken {state : OnDemand} {event : FileEvent} {others : List FileEvent}
    (inbox : state.inbox = event :: others) :
    state.inbox = takenEvents state .handle ++ (handleEvent { state with inbox := others } event).inbox ∧
      (handleEvent { state with inbox := others } event).history =
        (takenEvents state .handle).reverse.map Observation.received ++ state.history := by
  have handled := handleEvent_handled { state with inbox := others } event
  generalize handleEvent { state with inbox := others } event = after at handled ⊢
  have quiet (kept : ¬ event.Raises) : takenEvents state .handle = [event] := by
    simp only [takenEvents, inbox, if_neg kept]
  cases handled with
  | write written =>
      rw [quiet fun raises => Bool.false_ne_true ((Operation.isWrite_of_isRemoval raises.1).symm.trans written)]
      exact ⟨inbox, rfl⟩
  | remove removal outside encodes =>
      rw [quiet fun raises => Bool.false_ne_true (encodes.symm.trans raises.2.2)]
      exact ⟨inbox, rfl⟩
  | raise removal outside surrogate =>
      have raises : event.Raises := ⟨removal, outside, surrogate⟩
      have taken : takenEvents state .handle = event :: others := by
        simp only [takenEvents, inbox, if_pos raises]
      rw [taken]
      exact ⟨by rw [inbox, List.append_nil], by simp⟩
  | skip other excluded =>
      rw [quiet fun raises => Bool.false_ne_true (raises.2.1.symm.trans (excluded raises.1))]
      exact ⟨inbox, rfl⟩

/-- The history grows by the events that are taken, or by the path that is put. -/
theorem step_history {after : OnDemand} {label : Label} (stepped : step state label = some after) :
    after.history = (takenEvents state label).reverse.map Observation.received ++
      ((putter (state, label)).map fun put => Observation.put put.2).toList ++ state.history := by
  cases step_taken stepped with
  | handle event others inbox =>
      rw [(handleEvent_taken inbox).2]
      simp [putter]
  | resume number task next final put idle stored resumed =>
      simp only [takenEvents, putter, stored, resumed, List.reverse_nil, List.map_nil,
        List.nil_append]
      cases put <;> rfl
  | tick | receive | fire | check | reap | take => rfl

end OnDemand

namespace ScanLoop

variable {config : ScanConfig} {loop after : ScanLoop} {paths : List Str}

/-- A scan with this outcome has its record in a file. -/
def HasRecord (loop : ScanLoop) (outcome : Outcome) : Prop :=
  ∃ record ∈ loop.written, recordOf outcome = some record

/-- Each scan is in the set, or it has ended and its record is in a file. -/
def Shown (loop : ScanLoop) : Prop :=
  ∀ (number : Nat) (task : ScanTask), loop.scans[number]? = some task →
    .scan number ∈ loop.tasks ∨ ∃ outcome, task.outcome = some outcome ∧ loop.HasRecord outcome

theorem HasRecord.mono {outcome : Outcome} (has : loop.HasRecord outcome)
    (kept : loop.written ⊆ after.written) : after.HasRecord outcome := by
  obtain ⟨record, member, shown⟩ := has
  exact ⟨record, kept member, shown⟩

theorem Shown.startScan (shown : loop.Shown) (path : Str) (queue : FinishableQueue Str) :
    (loop.startScan path queue).Shown := by
  intro number task stored
  change (loop.scans ++ [(⟨path, none⟩ : ScanTask)])[number]? = some task at stored
  rw [getElem?_snoc] at stored
  split at stored
  · rename_i last
    exact .inl (List.mem_append_right _ (by rw [last]; exact List.mem_singleton_self _))
  · exact (shown number task stored).imp_left (List.mem_append_left _)

theorem Shown.enter (shown : loop.Shown) (maxScans : Int) : (loop.enter maxScans).Shown := by
  have filled : (fill maxScans loop.filesToScan.len loop).Shown :=
    fill_keeps Shown (fun next path queue kept _ _ => kept.startScan path queue) _ shown
  have awaited : (fill maxScans loop.filesToScan.len loop).awaitQueue.Shown := by
    unfold awaitQueue
    split
    · exact fun number task stored => (filled number task stored).imp_left (List.mem_append_left _)
    · exact filled
  unfold ScanLoop.enter
  split
  · exact shown
  · dsimp only
    split <;> exact awaited

/-- A reported task is in a file, and no record is lost. -/
theorem reportOne_written {task : TaskName} {now : ℚ} (reported : loop.reportOne task now = .ok after) :
    after.tasks = loop.tasks ∧ loop.written ⊆ after.written ∧
      ∀ number outcome, task = .scan number →
        (loop.scans[number]?).bind ScanTask.outcome = some outcome → after.HasRecord outcome := by
  cases task with
  | ready number =>
      simp only [reportOne] at reported
      split at reported <;>
        (obtain rfl := Except.ok.inj reported
         exact ⟨rfl, List.Subset.refl _, fun _ _ same => by cases same⟩)
  | scan number =>
      simp only [reportOne] at reported
      cases ended : (loop.scans[number]?).bind ScanTask.outcome with
      | none =>
          rw [ended] at reported
          obtain rfl := Except.ok.inj reported
          refine ⟨rfl, List.Subset.refl _, ?_⟩
          intro other outcome same found
          obtain rfl := TaskName.scan.inj same
          rw [ended] at found
          contradiction
      | some outcome =>
          simp only [ended] at reported
          cases shown : reportOutcome loop.logger outcome now with
          | error raised =>
              rw [shown] at reported
              cases reported
          | ok result =>
              obtain ⟨logger, record⟩ := result
              rw [shown] at reported
              obtain rfl := Except.ok.inj reported
              refine ⟨rfl, List.subset_append_left _ _, ?_⟩
              intro other ending same found
              obtain rfl := TaskName.scan.inj same
              obtain rfl := Option.some.inj (ended.symm.trans found)
              exact ⟨record, by simp, reportOutcome_ok shown⟩

/-- The loop over the completed tasks raises, or it puts them all in the files. -/
theorem reportAll_written (completed : List (TaskName × ℚ)) (loop : ScanLoop) :
    (∃ raised, (reportAll completed loop).control = .raised raised) ∨
      (reportAll completed loop).tasks = loop.tasks ∧
        loop.written ⊆ (reportAll completed loop).written ∧
        ∀ number outcome, .scan number ∈ completed.map Prod.fst →
          (loop.scans[number]?).bind ScanTask.outcome = some outcome →
            (reportAll completed loop).HasRecord outcome := by
  induction completed generalizing loop with
  | nil => exact .inr ⟨rfl, List.Subset.refl _, fun _ _ member => absurd member List.not_mem_nil⟩
  | cons entry others ih =>
      obtain ⟨task, now⟩ := entry
      rw [reportAll]
      cases reported : loop.reportOne task now with
      | error raised => exact .inl ⟨raised, rfl⟩
      | ok next =>
          refine (ih next).imp_right ?_
          rintro ⟨tasks, written, later⟩
          obtain ⟨same, kept, first⟩ := reportOne_written reported
          have scans := (reportOne_keeps reported).1
          refine ⟨tasks.trans same, List.Subset.trans kept written, ?_⟩
          intro number outcome member ended
          rcases List.mem_cons.mp member with named | member
          · exact (first number outcome named.symm ended).mono written
          · exact later number outcome member (by rw [scans]; exact ended)

/-- Every step of a loop that does not raise keeps the scans in the set or in the files. -/
theorem shown_step {label : Label} (shown : loop.Shown) (stepped : step config loop label = some after) :
    after.Shown ∨ ∃ raised, after.control = .raised raised := by
  cases label with
  | finishScan number =>
      obtain ⟨path, running, rfl⟩ := Program.step_finishScan stepped
      refine .inl ?_
      intro other task stored
      rcases replace_cases stored with ⟨rfl, rfl⟩ | ⟨_, stored⟩
      · refine .inl ((shown other _ running).resolve_right ?_)
        rintro ⟨outcome, ended, _⟩
        contradiction
      · exact shown other task stored
  | stepReady number =>
      have taken := (Option.ite_none_right_eq_some.mp stepped).2
      obtain ⟨readyTasks, queue, same⟩ : ∃ readyTasks queue,
          after = { loop with readyTasks := readyTasks, filesToScan := queue } := by
        simp only [stepReady] at taken
        split at taken
        · split at taken <;> exact ⟨_, _, (Option.some.inj taken).symm⟩
        · split at taken
          · exact ⟨_, _, (Option.some.inj taken).symm⟩
          · contradiction
        · contradiction
      rw [same]
      exact .inl shown
  | put path =>
      have moved := (Option.ite_none_right_eq_some.mp stepped).2
      obtain ⟨_, same⟩ := Option.ite_none_right_eq_some.mp moved
      obtain rfl := Option.some.inj same
      exact .inl shown
  | resume completed =>
      obtain ⟨_, _, all, rfl⟩ := step_resume stepped
      rcases reportAll_written completed loop.swap with ⟨raised, control⟩ | ⟨tasks, kept, reported⟩
      · rw [if_neg (by simp [control])]
        exact .inr ⟨raised, control⟩
      · refine .inl ?_
        have next : (reportAll completed loop.swap).Shown := by
          intro number task stored
          rw [(reportAll_keeps completed loop.swap).1] at stored
          rcases shown number task stored with scheduled | ⟨outcome, ended, has⟩
          · cases done : loop.doneTask (.scan number) with
            | false =>
                left
                rw [tasks]
                exact List.mem_filter.mpr ⟨scheduled, by simp [done]⟩
            | true =>
                right
                have member := all.mem_iff.mpr (List.mem_filter.mpr ⟨scheduled, done⟩)
                obtain ⟨outcome, ended⟩ : ∃ outcome, task.outcome = some outcome := by
                  apply Option.isSome_iff_exists.mp
                  simpa [doneTask, show loop.scans[number]? = some task from stored] using done
                refine ⟨outcome, ended, reported number outcome member ?_⟩
                rw [show loop.swap.scans[number]? = some task from stored]
                exact ended
          · exact .inr ⟨outcome, ended, has.mono kept⟩
        split
        · exact next.enter config.maxScans
        · exact next

theorem shown_run {past : List (ScanLoop × Label)} {last : ScanLoop}
    (run : Run (system config paths) past last) :
    last.Shown ∨ ∃ raised, last.control = .raised raised := by
  refine (run.always (fun state => state.Shown ∨ ∃ raised, state.control = .raised raised) ?_ ?_).1
  · rintro state rfl
    exact .inl (Shown.enter (fun _ _ stored => by simp at stored) _)
  · intro state label after before stepped
    rcases before with shown | ⟨raised, control⟩
    · exact shown_step shown stepped
    · have waiting := (Option.ite_none_right_eq_some.mp stepped).1
      rw [control] at waiting
      contradiction

end ScanLoop

/-- These directories are left. -/
def Stage.left : Stage → List (List Str)
  | .gathering left => left
  | .scanning => []

namespace Program

variable {κ : Type} {config : ProgramConfig} {clamd : Clamd κ} {files : Files}
  {past later earlier : List (Program κ × Label κ)} {program state last after : Program κ}
  {label : Label κ}

/-- This task of the watcher puts its path in the step. -/
def putAt : Program κ × Label κ → Option (Nat × Str)
  | (program, .watch label) => OnDemand.putter (program.session.watch, label)
  | _ => none

/-- The watcher handles this event in the step. -/
def handledAt : Program κ × Label κ → Option FileEvent
  | (program, .watch label) => OnDemand.handledEvent program.session.watch label
  | _ => none

/-- These events leave the inbox of the watcher in the step. -/
def takenAt (program : Program κ) : Label κ → List FileEvent
  | .watch label => OnDemand.takenEvents program.session.watch label
  | _ => []

/-- An event that does not raise is the only one that is taken. -/
theorem takenAt_handled {event : FileEvent} (handled : handledAt (program, label) = some event)
    (quiet : ¬ event.Raises) : takenAt program label = [event] := by
  cases label with
  | watch inner =>
      cases inner with
      | handle =>
          change program.session.watch.inbox.head? = some event at handled
          obtain ⟨others, inbox⟩ := List.head?_eq_some_iff.mp handled
          change OnDemand.takenEvents program.session.watch .handle = _
          simp only [OnDemand.takenEvents, inbox, if_neg quiet]
      | tick | receive | fire | resume | check | reap | take => contradiction
  | gather | scanFiles | change | advance | read | stepReady | resume => contradiction

/-- The gathering puts these files of a directory in the step. -/
def gatheredAt : Program κ × Label κ → Option (List Str)
  | (program, .gather) => program.stage.left.head?
  | _ => none

/-- The steps of the watcher are a run of its model. -/
theorem watcher_run (run : Run (system config clamd files) past last) :
    ∃ trace watch, Run OnDemand.system trace watch ∧ WatcherMirrors last watch ∧
      List.Forall₂ (fun origin step => WatcherMirrors origin.1 step.1 ∧
          watcherAnswer origin.1 origin.2 = [step.2])
        (past.filter fun origin => !(watcherAnswer origin.1 origin.2).isEmpty) trace := by
  refine (watch_simulates config clamd files).run_mirrored ?_ run (coherent_meets run)
  intro state label
  cases label <;> simp [watcherAnswer]

/-- The watcher takes its steps while the queue is open. -/
theorem open_of_watch {origin : Program κ × Label κ} {inner : OnDemand.Label}
    (run : Run (system config clamd files) past last) (member : origin ∈ past)
    (answered : watcherAnswer origin.1 origin.2 = [inner]) :
    origin.2 = .watch inner ∧ QueueOpen origin.1.session.watch.q := by
  obtain ⟨state, label⟩ := origin
  obtain ⟨later, earlier, rfl⟩ := List.append_of_mem member
  obtain ⟨after, before, stepped⟩ := run.split
  cases label with
  | watch label =>
      obtain rfl := List.singleton_inj.mp answered
      have watching : config.watch = true := by
        change step config clamd state (.watch label) = some after at stepped
        cases step_taken stepped with
        | watch _ _ watching => exact watching
      exact ⟨rfl, (coherent_run before).1.isOpen (.inl watching)⟩
  | gather | scanFiles | change | advance | read | stepReady | resume => contradiction

/-- The model of the watcher puts what the watcher puts. -/
theorem observed_putAt (run : Run (system config clamd files) past last)
    {trace : List (OnDemand × OnDemand.Label)}
    (mirrored : List.Forall₂ (fun origin step => WatcherMirrors origin.1 step.1 ∧
        watcherAnswer origin.1 origin.2 = [step.2])
      (past.filter fun origin => !(watcherAnswer origin.1 origin.2).isEmpty) trace) :
    observed OnDemand.putter trace = observed putAt past := by
  refine congrArg List.reverse (filterMap_mirrored mirrored ?_ ?_)
  · rintro origin member ⟨mirror, inner⟩ ⟨⟨q, table, isOpen, rfl⟩, answered⟩
    obtain ⟨state, label⟩ := origin
    obtain ⟨same, originOpen⟩ := open_of_watch run member answered
    obtain rfl : label = .watch inner := same
    exact OnDemand.putter_elsewhere originOpen isOpen table inner
  · intro origin _ silent
    obtain ⟨state, label⟩ := origin
    cases label with
    | watch label => simp [watcherAnswer] at silent
    | gather | scanFiles | change | advance | read | stepReady | resume => rfl

/-- The gathering goes through the directories in their order. -/
theorem gathered_run (run : Run (system config clamd files) past last) :
    observed gatheredAt past ++ last.stage.left = config.directories := by
  induction run with
  | start begins =>
      rw [begins.1]
      rfl
  | @next past state after label _ stepped ih =>
      rw [observed_cons, ← ih, List.append_assoc]
      congr 1
      obtain ⟨stage, session, loop⟩ := state
      cases step_taken stepped with
      | gather paths left same =>
          obtain rfl : stage = _ := same
          rfl
      | scanFiles same =>
          obtain rfl : stage = _ := same
          rfl
      | watch | change | goOn | finish | read | stepReady | resume => rfl

/-- The scans are those of the gathered files and, once for each deferred task, of the files that were
written ten seconds before. -/
structure Requested (config : ProgramConfig) (past : List (Program κ × Label κ)) (last : Program κ) :
    Prop where
  inOrder : last.session.calls.map Call.path ++ last.session.watch.q.q = requested past
  gathered : observed gatheredAt past ++ last.stage.left = config.directories
  once : ((observed putAt past).map Prod.fst).Nodup
  delayed : ∀ later state label earlier number path, past = later ++ (state, label) :: earlier →
    putAt (state, label) = some (number, path) →
      ∃ creation ∈ earlier, ∃ event, handledAt creation = some event ∧ event.path = path ∧
        event.operation.isWrite = true ∧
        creation.1.session.watch.now + seconds 10 ≤ state.session.watch.now

/-- A task that puts was created by a write at least ten seconds before. -/
theorem delayed_run (run : Run (system config clamd files) (later ++ (state, label) :: earlier) last)
    {number : Nat} {path : Str} (puts : putAt (state, label) = some (number, path)) :
    ∃ creation ∈ earlier, ∃ event, handledAt creation = some event ∧ event.path = path ∧
      event.operation.isWrite = true ∧
      creation.1.session.watch.now + seconds 10 ≤ state.session.watch.now := by
  obtain ⟨after, before, _⟩ := run.split
  cases label with
  | watch inner =>
      obtain ⟨task, stored, woken, _, named, _⟩ := OnDemand.putter_spec puts
      obtain ⟨trace, watch, mirrorRun, ⟨q, table, _, rfl⟩, mirrored⟩ := watcher_run before
      obtain ⟨⟨mirror, inner⟩, member, creates, time⟩ := OnDemand.created_run mirrorRun number task stored
      have timely := (OnDemand.kept_run mirrorRun).1.timely number task stored
      rw [DeferredTask.Timely, woken, ← time] at timely
      obtain ⟨⟨origin, label⟩, inside, ⟨_, _, _, rfl⟩, answered⟩ := origin_of_mem mirrored member
      have kept := (List.mem_filter.mp inside).1
      obtain rfl : inner = .handle := creates.handles
      obtain rfl : label = .watch .handle := (open_of_watch before kept answered).1
      obtain ⟨event, others, inbox, same, write⟩ := creates.event
      refine ⟨_, kept, event, ?_, same.trans named, write, timely⟩
      exact congrArg List.head? inbox
  | gather | scanFiles | change | advance | read | stepReady | resume => contradiction

/-- In every run of the program each scan has been requested, in the order of the requests. -/
theorem scans_requested (run : Run (system config clamd files) past last) :
    Requested config past last := by
  obtain ⟨coherent, inOrder⟩ := coherent_run run
  obtain ⟨trace, watch, mirrorRun, _, mirrored⟩ := watcher_run run
  constructor
  · rw [← inOrder, coherent.scans, List.map_map]
    rfl
  · exact gathered_run run
  · rw [← observed_putAt run mirrored]
    exact OnDemand.puts_once mirrorRun
  · intro later state label earlier number path split puts
    subst split
    exact delayed_run run puts

/-- A gathered file and a written one are both scanned. -/
theorem scans_requested_pair : ∃ past last,
    Run (system ⟨2, true, [[text "/a"]]⟩ Session.exampleClamd fun _ => none) past last ∧
      last.session.calls.map Call.path = [text "/a", text "/b"] ∧
      Requested ⟨2, true, [[text "/a"]]⟩ past last := by
  have run := (exampleStart_run 2 true [[text "/a"]]).follow [.gather, .scanFiles, .stepReady 0,
    .advance 0 [], .watch (.receive [⟨text "/b", .closeForWrite⟩]), .watch .handle, .watch (.resume 0),
    .watch (.tick (seconds 10)), .watch (.fire 0), .watch (.resume 0), .stepReady 0,
    .resume [(.ready 0, 0)]] rfl
  exact ⟨_, _, run, rfl, scans_requested run⟩

/-- No write event is blocked when the watcher handles it. -/
def WritesKept (program : Program κ) : Label κ → Prop
  | .watch label => OnDemand.WriteKept program.session.watch label
  | _ => True

instance (program : Program κ) : (label : Label κ) → Decidable (WritesKept program label)
  | .watch label => inferInstanceAs (Decidable (OnDemand.WriteKept program.session.watch label))
  | .gather | .scanFiles | .change _ _ | .advance _ _ | .read _ | .stepReady _ | .resume _ => isTrue trivial

/-- The deferred tasks have ended, and no file is queued or scanned. -/
structure AtRest (program : Program κ) : Prop where
  waiting : program.loop.control = .waiting
  deferred : ∀ task ∈ program.session.watch.manager.tasks, task.done = true
  queue : program.session.watch.q.q = []
  scans : ∀ number, .scan number ∉ program.loop.tasks

/-- A program that keeps the write events loses none of them. -/
theorem noWriteLost_run (run : Run (system config clamd files) past last) (kept : Meets WritesKept past) :
    OnDemand.NoWriteLost last.session.watch := by
  obtain ⟨trace, watch, mirrorRun, ⟨q, table, _, rfl⟩, mirrored⟩ := watcher_run run
  have met : Meets OnDemand.WriteKept trace := by
    intro step member
    obtain ⟨⟨origin, label⟩, inside, ⟨r, other, _, same⟩, answered⟩ := origin_of_mem mirrored member
    obtain ⟨mirror, inner⟩ := step
    obtain rfl : mirror = _ := same
    have taken := (List.mem_filter.mp inside).1
    obtain rfl : label = .watch inner := (open_of_watch run taken answered).1
    exact OnDemand.writeKept_elsewhere other (kept _ taken)
  exact (mirrorRun.throughout OnDemand.WriteKept (fun state => state.Printed ∧ state.NoWriteLost)
    (fun state begins => ⟨OnDemand.printed_start begins, OnDemand.noWriteLost_start begins⟩)
    (fun state label after before allowed stepped => ⟨OnDemand.printed_step before.1 stepped,
      (OnDemand.noWriteLost_step before.1 before.2 stepped).mpr allowed⟩) met).1.2

/-- The history grows by the events that are taken, or by the path that is put. -/
theorem step_history (stepped : step config clamd program label = some after) :
    after.session.watch.history = (takenAt program label).reverse.map Observation.received ++
      ((putAt (program, label)).map fun put => Observation.put put.2).toList ++
        program.session.watch.history := by
  cases step_taken stepped with
  | watch label session watching other taken =>
      obtain ⟨watch, moved, rfl⟩ := Option.map_eq_some_iff.mp taken
      simp only [setQueue, Session.noteRemoval_watch]
      exact OnDemand.step_history moved
  | change path entry session taken =>
      obtain rfl := Option.some.inj taken
      rfl
  | goOn number now session taken =>
      obtain ⟨_, _, _, _, _, _, _, _, rfl⟩ := step_advance taken
      rfl
  | finish number now session outcome loop taken =>
      obtain ⟨_, _, _, _, _, _, _, _, rfl⟩ := step_advance taken
      rfl
  | read number session taken =>
      obtain ⟨_, _, moved⟩ := Option.bind_eq_some_iff.mp taken
      obtain ⟨_, _, rfl⟩ := Option.map_eq_some_iff.mp moved
      rfl
  | gather | scanFiles | stepReady | resume => rfl

theorem requested_of_putAt {number : Nat} {path : Str}
    (puts : putAt (program, label) = some (number, path)) : path ∈ requestedAt program label := by
  cases label with
  | watch inner =>
      change OnDemand.putter (program.session.watch, inner) = _ at puts
      simp [requestedAt, puts]
  | gather | scanFiles | change | advance | read | stepReady | resume => contradiction

/-- After its newest event a path is put only by a step that requests it. -/
theorem newest_since {event : FileEvent}
    (run : Run (system config clamd files) (later ++ (state, label) :: earlier) last)
    (handled : handledAt (state, label) = some event) (quiet : ¬ event.Raises)
    (newest : ∀ taken ∈ later, ∀ other ∈ takenAt taken.1 taken.2, other.path ≠ event.path) :
    OnDemand.lastOperation event.path last.session.watch.history = some event.operation ∧
      (OnDemand.PutSince event.path last.session.watch.history →
        event.path ∈ answers requestedAt later) := by
  induction later generalizing last with
  | nil =>
      obtain ⟨_, stepped⟩ := run.uncons
      rw [step_history stepped, takenAt_handled handled quiet]
      exact ⟨if_pos rfl, fun put => absurd rfl put.1⟩
  | cons taken later ih =>
      obtain ⟨program, next⟩ := taken
      obtain ⟨before, stepped⟩ := run.uncons
      obtain ⟨operation, since⟩ := ih before fun other member =>
        newest other (List.mem_cons_of_mem _ member)
      have older : OnDemand.PutSince event.path program.session.watch.history →
          event.path ∈ answers requestedAt later ++ requestedAt program next :=
        fun put => List.mem_append_left _ (since put)
      have absent : ∀ other ∈ (takenAt program next).reverse, other.path ≠ event.path :=
        fun other member => newest _ List.mem_cons_self other (List.mem_reverse.mp member)
      rw [step_history stepped, answers_cons, List.append_assoc, OnDemand.lastOperation_absent _ absent,
        OnDemand.putSince_received]
      cases put : putAt (program, next) with
      | none => exact ⟨operation, fun added => older added.2⟩
      | some entry =>
          refine ⟨operation, fun added => added.2.elim ?_ older⟩
          rintro named
          exact List.mem_append_right _ (named ▸ requested_of_putAt put)

/-- What has been requested since a state has been scanned since once nothing is left to do. -/
theorem scanned_of_requested (run : Run (system config clamd files) (later ++ earlier) last)
    (before : Run (system config clamd files) earlier state) (rest : last.AtRest) {path : Str}
    (asked : path ∈ answers requestedAt later) :
    ∃ number call, state.session.calls.length ≤ number ∧ last.session.calls[number]? = some call ∧
      call.path = path := by
  obtain ⟨earlierCoherent, earlierOrder⟩ := coherent_run before
  obtain ⟨coherent, inOrder⟩ := coherent_run run
  rw [InOrder, coherent.scans, rest.queue, List.append_nil, List.map_map, requested, answers_append,
    ← requested, ← earlierOrder, earlierCoherent.scans] at inOrder
  obtain ⟨index, inside, same⟩ := List.getElem_of_mem asked
  let prior := (state.session.calls.map taskOf).map ScanTask.path ++ state.session.watch.q.q
  have counted : state.session.calls.length ≤ prior.length := by simp [prior]
  have found : (last.session.calls.map (ScanTask.path ∘ taskOf))[prior.length + index]? = some path := by
    rw [inOrder, List.getElem?_append_right (Nat.le_add_right _ _), Nat.add_sub_cancel_left,
      List.getElem?_eq_getElem inside, same]
  rw [List.getElem?_map] at found
  obtain ⟨call, stored, named⟩ := Option.map_eq_some_iff.mp found
  exact ⟨prior.length + index, call, counted.trans (Nat.le_add_right _ _), stored, named⟩

theorem finishedOutcome_eq {call : Call κ} {outcome : Outcome}
    (ended : finishedOutcome call = some outcome) : call.phase = .finished outcome := by
  unfold finishedOutcome at ended
  split at ended
  · rename_i same
    rw [same, Option.some.inj ended]
  · contradiction

/-- While the loop waits, each scan is in the set, or its record is in a file. -/
theorem shown_run (run : Run (system config clamd files) past last) (waiting : last.loop.control = .waiting) :
    last.loop.Shown := by
  cases stage : last.stage with
  | gathering left =>
      rw [(coherent_run run).1.before left stage]
      intro number task stored
      simp [beforeLoop] at stored
  | scanning =>
      obtain ⟨_, _, beginning, _, foretold⟩ := (loop_run run).2 stage
      obtain ⟨trace, loopRun, _⟩ := foretold _ (foresees_outcomes last.session)
      apply (ScanLoop.shown_run loopRun).resolve_right
      rintro ⟨raised, control⟩
      rw [waiting] at control
      contradiction

/-- When no deferred task is left, the path of a kept write has been requested since. -/
theorem requested_of_written {event : FileEvent}
    (run : Run (system config clamd files) (later ++ (state, label) :: earlier) last)
    (kept : Meets WritesKept (later ++ (state, label) :: earlier))
    (deferred : ∀ task ∈ last.session.watch.manager.tasks, task.done = true)
    (handled : handledAt (state, label) = some event) (write : event.operation.isWrite = true)
    (outside : OnDemand.OutsideTmp event.path)
    (newest : ∀ taken ∈ later, ∀ other ∈ takenAt taken.1 taken.2, other.path ≠ event.path) :
    event.path ∈ answers requestedAt later := by
  have quiet : ¬ event.Raises := fun raises =>
    Bool.false_ne_true ((Operation.isWrite_of_isRemoval raises.1).symm.trans write)
  obtain ⟨operation, since⟩ := newest_since run handled quiet newest
  apply since
  apply (noWriteLost_run run kept event.path event.operation outside operation write).resolve_right
  rintro ⟨number, task, _, stored, live⟩
  simp [DeferredTask.live, deferred task (List.mem_of_getElem? stored)] at live

/-- When nothing is left to do, every call has finished, and its record is in a file. -/
theorem recorded_of_atRest (run : Run (system config clamd files) past last) (rest : last.AtRest)
    {number : Nat} {call : Call κ} (stored : last.session.calls[number]? = some call) :
    ∃ outcome, call.phase = .finished outcome ∧ last.loop.HasRecord outcome := by
  have task : last.loop.scans[number]? = some (taskOf call) := by
    rw [(coherent_run run).1.scans, List.getElem?_map, stored]
    rfl
  obtain ⟨outcome, ended, record⟩ :=
    (shown_run run rest.waiting number _ task).resolve_left (rest.scans number)
  exact ⟨outcome, finishedOutcome_eq ended, record⟩

/-- When nothing is left to do, each kept write has been scanned since, and its record is in a file. -/
theorem written_scanned {event : FileEvent}
    (run : Run (system config clamd files) (later ++ (state, label) :: earlier) last)
    (kept : Meets WritesKept (later ++ (state, label) :: earlier)) (rest : last.AtRest)
    (handled : handledAt (state, label) = some event) (write : event.operation.isWrite = true)
    (outside : OnDemand.OutsideTmp event.path)
    (newest : ∀ taken ∈ later, ∀ other ∈ takenAt taken.1 taken.2, other.path ≠ event.path) :
    ∃ number call outcome, state.session.calls.length ≤ number ∧
      last.session.calls[number]? = some call ∧ call.path = event.path ∧
      call.phase = .finished outcome ∧ last.loop.HasRecord outcome := by
  have asked := requested_of_written run kept rest.deferred handled write outside newest
  obtain ⟨_, before, _⟩ := run.split
  rw [← List.singleton_append, ← List.append_assoc] at run
  obtain ⟨number, call, later, stored, named⟩ := scanned_of_requested run before rest
    (by rw [answers_append]; exact List.mem_append_right _ asked)
  obtain ⟨outcome, finished, record⟩ := recorded_of_atRest run rest stored
  exact ⟨number, call, outcome, later, stored, named, finished, record⟩

/-- No other event is handled by the steps of this program after the write. -/
def scanAfterWrite : List (Label Bool) :=
  [.watch (.resume 0), .watch (.tick (seconds 10)), .watch (.fire 0), .watch (.resume 0), .stepReady 0,
    .resume [(.ready 0, 0)], .advance 0 [], .advance 0 [], .advance 0 [], .read 0, .advance 0 [],
    .resume [(.scan 0, 0)]]

/-- The watcher has handled the write of one file. -/
def exampleWrite : List (Label Bool) :=
  [.scanFiles, .stepReady 0, .watch (.receive [⟨text "/a", .closeForWrite⟩]), .watch .handle]

def exampleSystem : System (Program Bool) (Label Bool) :=
  system ⟨1, true, []⟩ Session.exampleClamd fun _ => none

def exampleWritten : Program Bool := (steps exampleSystem exampleWrite (exampleStart [])).getD (exampleStart [])

/-- A written file is scanned, and it is found infected. -/
theorem written_scanned_infected : ∃ (last : Program Bool) (number : Nat) (call : Call Bool)
    (outcome : Outcome), last.session.calls[number]? = some call ∧ call.path = text "/a" ∧
      call.phase = .finished outcome ∧ last.loop.HasRecord outcome := by
  have written : Run exampleSystem _ exampleWritten := (exampleStart_run 1 true []).follow exampleWrite rfl
  obtain ⟨⟨later, last⟩, followed, shown⟩ := (Option.any_eq_true _ _).mp
    (show (follow exampleSystem scanAfterWrite ([], exampleWritten)).any (fun reached =>
      decide (Meets WritesKept reached.1 ∧ (∀ taken ∈ reached.1, takenAt taken.1 taken.2 = []) ∧
        reached.2.loop.control = .waiting ∧ (∀ task ∈ reached.2.session.watch.manager.tasks, task.done = true) ∧
        reached.2.session.watch.q.q = [] ∧ reached.2.loop.tasks = [.ready 1])) = true from by decide +kernel)
  obtain ⟨kept, quiet, waiting, deferred, queue, tasks⟩ := of_decide_eq_true shown
  have run := written.follow scanAfterWrite (follow_prior _ followed)
  have rest : last.AtRest := ⟨waiting, deferred, queue, fun number member => by
    rw [show last.loop.tasks = [.ready 1] from tasks] at member
    cases List.mem_singleton.mp member⟩
  obtain ⟨number, call, outcome, _, ended⟩ := written_scanned run (by
      intro taken member
      rcases List.mem_append.mp member with new | old
      · exact kept taken new
      · clear member
        revert taken
        decide) rest rfl rfl (by decide) fun taken member other seen => by
          rw [quiet taken member] at seen
          contradiction
  exact ⟨last, number, call, outcome, ended⟩

end Program

end ClamavDbscan
