import ClamavDbscan.Proof.Main.ProgramSteps
import ClamavDbscan.Proof.Scanner.CacheSoundness

/-
This file proves that the models of the parts of the program see every run of the whole program.
-/

namespace ClamavDbscan

open Transition

/-- On another open queue a task is resumed in the same way. -/
theorem DeferredTask.resume_frame {task after : DeferredTask} {now : LoopTime}
    {q other final : FinishableQueue Str} {put : Option Str} (isOpen : QueueOpen q)
    (otherOpen : QueueOpen other) (resumed : task.resume now q = some (after, final, put)) :
    ∃ later, task.resume now other = some (after, later, put) ∧ QueueOpen later := by
  obtain ⟨path, phase, cancelRequested, createdAt⟩ := task
  obtain ⟨first, stored, _⟩ := isOpen.put path
  obtain ⟨second, mirrored, secondOpen⟩ := otherOpen.put path
  cases phase with
  | created =>
      cases cancelRequested with
      | true =>
          simp only [resume, Option.some.injEq, Prod.mk.injEq] at resumed ⊢
          obtain ⟨rfl, _, rfl⟩ := resumed
          exact ⟨other, ⟨rfl, rfl, rfl⟩, otherOpen⟩
      | false =>
          simp only [resume] at resumed ⊢
          split at resumed <;> rename_i encodes <;>
            (obtain ⟨rfl, _, rfl⟩ := by simpa only [Option.some.injEq, Prod.mk.injEq] using resumed
             exact ⟨other, by simp only [encodes, if_true, if_false, Bool.false_eq_true], otherOpen⟩)
  | sleeping due =>
      cases cancelRequested with
      | false => simp [resume] at resumed
      | true =>
          simp only [resume, Option.some.injEq, Prod.mk.injEq] at resumed ⊢
          obtain ⟨rfl, _, rfl⟩ := resumed
          exact ⟨other, ⟨rfl, rfl, rfl⟩, otherOpen⟩
  | woken =>
      cases cancelRequested with
      | false =>
          simp only [resume, stored, mirrored, Option.some.injEq, Prod.mk.injEq] at resumed ⊢
          obtain ⟨rfl, _, rfl⟩ := resumed
          exact ⟨second, ⟨rfl, rfl, rfl⟩, secondOpen⟩
      | true =>
          simp only [resume, Option.some.injEq, Prod.mk.injEq] at resumed ⊢
          obtain ⟨rfl, _, rfl⟩ := resumed
          exact ⟨other, ⟨rfl, rfl, rfl⟩, otherOpen⟩
  | finished ending => simp [resume] at resumed

namespace OnDemand

/-- The watcher with another queue and another table. -/
def elsewhere (state : OnDemand) (q : FinishableQueue Str) (files : Files) : OnDemand :=
  { state with q := q, files := files }

/-- Removing a row is all that a message does to the table. -/
theorem handleEvent_elsewhere (state : OnDemand) (q : FinishableQueue Str) (files : Files)
    (event : FileEvent) : ∃ later, handleEvent (state.elsewhere q files) event =
      (handleEvent state event).elsewhere q later ∧
        (files = state.files → later = (handleEvent state event).files) := by
  have handled := handleEvent_handled state event
  generalize handleEvent state event = after at handled ⊢
  cases handled with
  | write written =>
      have mirrored : Handled (state.elsewhere q files) event _ := .write written
      exact ⟨files, mirrored.eq, fun same => same⟩
  | remove removal outside encodes =>
      have mirrored : Handled (state.elsewhere q files) event _ := .remove removal outside encodes
      exact ⟨Function.update files event.path none, mirrored.eq, fun same => by rw [same]⟩
  | raise removal outside surrogate =>
      have mirrored : Handled (state.elsewhere q files) event _ := .raise removal outside surrogate
      exact ⟨files, mirrored.eq, fun same => same⟩
  | skip other excluded =>
      have mirrored : Handled (state.elsewhere q files) event _ := .skip other excluded
      exact ⟨files, mirrored.eq, fun same => same⟩

/-- The watcher takes the same steps on another open queue and another table. -/
theorem step_elsewhere {state after : OnDemand} {label : Label} (isOpen : QueueOpen state.q)
    (other : label ≠ .take) (stepped : step state label = some after) {q : FinishableQueue Str}
    (mirrorOpen : QueueOpen q) (files : Files) :
    ∃ later table, step (state.elsewhere q files) label = some (after.elsewhere later table) ∧
      QueueOpen later ∧ (files = state.files → table = after.files) := by
  cases step_taken stepped with
  | tick elapsed => exact ⟨q, files, rfl, mirrorOpen, fun same => same⟩
  | receive events idle unraised =>
      exact ⟨q, files, by simp [step, elsewhere, idle, unraised], mirrorOpen, fun same => same⟩
  | handle event others inbox =>
      obtain ⟨table, handled, same⟩ :=
        handleEvent_elsewhere { state with inbox := others } q files event
      exact ⟨q, table, by simpa [step, elsewhere, inbox] using handled, mirrorOpen, same⟩
  | fire number task next idle stored fired =>
      exact ⟨q, files, by simp [step, elsewhere, idle, stored, fired], mirrorOpen, fun same => same⟩
  | resume number task next final put idle stored resumed =>
      obtain ⟨later, mirrored, laterOpen⟩ :=
        DeferredTask.resume_frame isOpen mirrorOpen resumed
      exact ⟨later, files, by simp [step, elsewhere, idle, stored, mirrored], laterOpen,
        fun same => same⟩
  | check idle checking =>
      exact ⟨q, files, by simp [step, elsewhere, idle, checking], mirrorOpen, fun same => same⟩
  | reap completed snapshot waits idle nonempty reported =>
      refine ⟨q, files, ?_, mirrorOpen, fun same => same⟩
      simp only [step, elsewhere, waits, idle, nonempty, reported, ne_eq, not_false_eq_true, and_self,
        if_true]
  | take => contradiction

end OnDemand

namespace Session

variable {κ : Type} {clamd : Clamd κ} {session after : Session κ}

/-- The session with another queue. -/
def withQueue (session : Session κ) (q : FinishableQueue Str) : Session κ :=
  { session with watch := { session.watch with q := q } }

@[simp] theorem withQueue_calls (session : Session κ) (q : FinishableQueue Str) :
    (session.withQueue q).calls = session.calls := rfl

@[simp] theorem withQueue_inbox (session : Session κ) (q : FinishableQueue Str) :
    (session.withQueue q).watch.inbox = session.watch.inbox := rfl

/-- A session takes the same steps of its watcher on another open queue. -/
theorem step_watch_withQueue {label : OnDemand.Label} (isOpen : QueueOpen session.watch.q)
    (other : label ≠ .take) (stepped : step clamd session (.watch label) = some after)
    {q : FinishableQueue Str} (mirrorOpen : QueueOpen q) :
    ∃ later, step clamd (session.withQueue q) (.watch label) = some (after.withQueue later) ∧
      QueueOpen later := by
  obtain ⟨watch, moved, rfl⟩ := Option.map_eq_some_iff.mp stepped
  obtain ⟨later, table, mirrored, laterOpen, same⟩ :=
    OnDemand.step_elsewhere isOpen other moved mirrorOpen session.watch.files
  refine ⟨later, ?_, laterOpen⟩
  rw [same rfl] at mirrored
  have removal : handledRemoval (session.withQueue q).watch label = handledRemoval session.watch label := by
    cases label <;> rfl
  apply Option.map_eq_some_iff.mpr
  refine ⟨_, mirrored, ?_⟩
  rw [removal]
  cases handledRemoval session.watch label <;> rfl

/-- The other steps of a session do not look at its queue. -/
theorem step_withQueue {label : Label κ} (quiet : ∀ inner, label ≠ .watch inner)
    (stepped : step clamd session label = some after) (q : FinishableQueue Str) :
    step clamd (session.withQueue q) label = some (after.withQueue q) := by
  cases label with
  | watch inner => exact absurd rfl (quiet inner)
  | change path entry =>
      obtain rfl := Option.some.inj stepped
      rfl
  | begin path cacheOk =>
      obtain ⟨idle, same⟩ := Option.ite_none_right_eq_some.mp stepped
      obtain rfl := Option.some.inj same
      exact if_pos idle
  | advance number now =>
      obtain ⟨idle, moved⟩ := Option.ite_none_right_eq_some.mp stepped
      refine (if_pos idle).trans ?_
      obtain ⟨call, stored, moved⟩ := Option.bind_eq_some_iff.mp moved
      obtain ⟨result, advanced, rfl⟩ := Option.map_eq_some_iff.mp moved
      apply Option.bind_eq_some_iff.mpr
      exact ⟨call, stored, Option.map_eq_some_iff.mpr ⟨result, advanced, rfl⟩⟩
  | read number =>
      obtain ⟨call, stored, moved⟩ := Option.bind_eq_some_iff.mp stepped
      obtain ⟨result, replied, rfl⟩ := Option.map_eq_some_iff.mp moved
      apply Option.bind_eq_some_iff.mpr
      exact ⟨call, stored, Option.map_eq_some_iff.mpr ⟨result, replied, rfl⟩⟩

/-- Calls begin one after the other while the watcher has no message. -/
theorem steps_begin (clamd : Clamd κ) (session : Session κ) (idle : session.watch.inbox = [])
    (paths : List Str) :
    steps (system clamd) (paths.map fun path => .begin path true) session =
      some { session with
        calls := session.calls ++ paths.map fun path => ⟨path, true, .created, none, false⟩ } := by
  induction paths generalizing session with
  | nil => simp
  | cons path others ih =>
      let begun : Session κ := { session with
        calls := session.calls ++ [⟨path, true, .created, none, false⟩] }
      have taken : (system clamd).step session (.begin path true) = some begun := if_pos idle
      rw [List.map_cons, steps_cons, taken, Option.bind_some, ih begun idle]
      simp [begun]

end Session

namespace Program

variable {κ : Type} {config : ProgramConfig} {clamd : Clamd κ} {program after : Program κ}
  {label : Label κ}

/-- The watcher sees its own steps. -/
def watcherAnswer : Program κ → Label κ → List OnDemand.Label
  | _, .watch label => [label]
  | _, _ => []

/-- The model of the watcher has another queue and another table. -/
def WatcherMirrors (program : Program κ) (mirror : OnDemand) : Prop :=
  ∃ q files, QueueOpen q ∧ mirror = program.session.watch.elsewhere q files

/-- The session sees the steps of the watcher, of the disk and of the calls, and the tasks that the
loop creates are calls that begin. -/
def sessionAnswer (config : ProgramConfig) (clamd : Clamd κ) (program : Program κ) :
    Label κ → List (Session.Label κ)
  | .watch label => [.watch label]
  | .change path entry => [.change path entry]
  | .advance number now => [.advance number now]
  | .read number => [.read number]
  | .gather | .stepReady _ => []
  | label =>
      match step config clamd program label with
      | none => []
      | some after => (after.session.calls.drop program.session.calls.length).map fun call =>
          .begin call.path true

/-- The model of the session has another queue. -/
def SessionMirrors (program : Program κ) (mirror : Session κ) : Prop :=
  ∃ q, QueueOpen q ∧ mirror = program.session.withQueue q

theorem coherent_meets {files : Files} {past : List (Program κ × Label κ)} {last : Program κ}
    (run : Run (system config clamd files) past last) :
    Meets (fun program _ => Coherent config program) past := by
  intro taken member
  obtain ⟨later, earlier, rfl⟩ := List.append_of_mem member
  obtain ⟨_, before, _⟩ := run.split
  exact (coherent_run before).1

theorem watch_simulates (config : ProgramConfig) (clamd : Clamd κ) (files : Files) :
    Simulates (system config clamd files) OnDemand.system (fun program _ => Coherent config program)
      watcherAnswer WatcherMirrors where
  start program begins := by
    obtain ⟨_, watch, _⟩ := begins
    refine ⟨program.session.watch, watch, program.session.watch.q, program.session.watch.files, ?_, rfl⟩
    rw [watch.2.2.2.1]
    exact ⟨rfl, rfl⟩
  step program label after mirror mirrors coherent stepped := by
    obtain ⟨q, files, isOpen, rfl⟩ := mirrors
    cases step_taken stepped with
    | watch label session watching other taken =>
        obtain ⟨watch, moved, rfl⟩ := Option.map_eq_some_iff.mp taken
        obtain ⟨later, table, mirrored, laterOpen, _⟩ :=
          OnDemand.step_elsewhere (coherent.isOpen (.inl watching)) other moved isOpen files
        refine ⟨watch.elsewhere later table, ?_, later, table, laterOpen, ?_⟩
        · exact (steps_single _ _ _).trans mirrored
        · simp [setQueue, OnDemand.elsewhere]
    | goOn number now session taken =>
        obtain ⟨_, _, _, _, _, _, _, _, rfl⟩ := step_advance taken
        exact ⟨_, rfl, q, files, isOpen, rfl⟩
    | finish number now session outcome loop taken =>
        obtain ⟨_, _, _, _, _, _, _, _, rfl⟩ := step_advance taken
        exact ⟨_, rfl, q, files, isOpen, rfl⟩
    | read number session taken =>
        obtain ⟨call, _, moved⟩ := Option.bind_eq_some_iff.mp taken
        obtain ⟨next, _, rfl⟩ := Option.map_eq_some_iff.mp moved
        exact ⟨_, rfl, q, files, isOpen, rfl⟩
    | change path entry session taken =>
        obtain rfl := Option.some.inj taken
        exact ⟨_, rfl, q, files, isOpen, rfl⟩
    | gather | scanFiles | stepReady | resume => exact ⟨_, rfl, q, files, isOpen, rfl⟩

/-- The loop calls `scan_file` for each path that it takes. -/
theorem setLoop_answered {loop : ScanLoop} {paths : List Str} (coherent : Coherent config program)
    (scans : loop.scans = program.loop.scans ++ paths.map fun path => ⟨path, none⟩) (idle : program.session.watch.inbox = [])
    (q : FinishableQueue Str) :
    steps (Session.system clamd)
      (((program.setLoop loop).session.calls.drop program.session.calls.length).map fun call =>
        .begin call.path true) (program.session.withQueue q) =
      some ((program.setLoop loop).session.withQueue q) := by
  obtain ⟨calls, _⟩ := map_setLoop coherent scans
  have begun := Session.steps_begin clamd (program.session.withQueue q) idle paths
  rw [calls, List.drop_left, List.map_map]
  refine begun.trans (congrArg some ?_)
  simp only [Session.withQueue, calls]
  rfl

theorem session_simulates (config : ProgramConfig) (clamd : Clamd κ) :
    Simulates (system config clamd fun _ => none) (Session.system clamd)
      (fun program _ => Coherent config program) (sessionAnswer config clamd) SessionMirrors where
  start program begins := by
    obtain ⟨_, watch, files, calls, removed, _⟩ := begins
    refine ⟨program.session, ⟨watch, files, calls, removed⟩, program.session.watch.q, ?_, rfl⟩
    rw [watch.2.2.2.1]
    exact ⟨rfl, rfl⟩
  step program label after mirror mirrors coherent stepped := by
    obtain ⟨q, isOpen, rfl⟩ := mirrors
    change step config clamd program label = some after at stepped
    cases step_taken stepped with
    | watch label session watching other taken =>
        obtain ⟨later, mirrored, laterOpen⟩ :=
          Session.step_watch_withQueue (coherent.isOpen (.inl watching)) other taken isOpen
        exact ⟨_, (steps_single _ _ _).trans mirrored, later, laterOpen, rfl⟩
    | change path entry session taken =>
        have mirrored := Session.step_withQueue (fun _ same => by cases same) taken q
        exact ⟨_, (steps_single _ _ _).trans mirrored, q, isOpen, rfl⟩
    | goOn number now session taken =>
        have mirrored := Session.step_withQueue (fun _ same => by cases same) taken q
        exact ⟨_, (steps_single _ _ _).trans mirrored, q, isOpen, rfl⟩
    | finish number now session outcome loop taken =>
        have mirrored := Session.step_withQueue (fun _ same => by cases same) taken q
        exact ⟨_, (steps_single _ _ _).trans mirrored, q, isOpen, rfl⟩
    | read number session taken =>
        have mirrored := Session.step_withQueue (fun _ same => by cases same) taken q
        exact ⟨_, (steps_single _ _ _).trans mirrored, q, isOpen, rfl⟩
    | gather => exact ⟨_, rfl, q, isOpen, rfl⟩
    | scanFiles stage idle =>
        obtain ⟨started, starts⟩ := ScanLoop.enter_starts config.maxScans { program.loop with
          filesToScan := if config.watch then program.session.watch.q
            else program.session.watch.q.finish.2 }
        refine ⟨_, ?_, q, isOpen, rfl⟩
        simp only [sessionAnswer, stepped]
        exact setLoop_answered coherent starts.scans idle q
    | stepReady number loop idle taken =>
        have counted : loop.scans.length = program.session.calls.length := by
          rw [(ScanLoop.stepReady_keeps taken).1, coherent.scans, List.length_map]
        refine ⟨_, rfl, q, isOpen, ?_⟩
        simp [setLoop, Session.withQueue, ← counted]
    | resume completed loop idle taken =>
        obtain ⟨started, starts⟩ := ScanLoop.resume_starts taken
        refine ⟨_, ?_, q, isOpen, rfl⟩
        simp only [sessionAnswer, stepped]
        exact setLoop_answered coherent starts.scans idle q

/-- These outcomes are those of the finished calls, and they are arbitrary for the others. -/
def Foresees (outcome : Nat → Str → Outcome) (session : Session κ) : Prop :=
  ∀ (number : Nat) (call : Call κ) (ended : Outcome), session.calls[number]? = some call →
    finishedOutcome call = some ended → outcome number call.path = ended

theorem foresees_outcomes (session : Session κ) : Foresees (outcomes session) session :=
  fun _ _ _ stored ended => outcomes_eq stored ended

/-- The loop sees the ends of its scans, the steps of its other tasks and the puts of the watcher. -/
def loopAnswer (clamd : Clamd κ) (program : Program κ) : Label κ → List ScanLoop.Label
  | .watch label => (requestedAt program (.watch label)).map .put
  | .advance number now =>
      match Session.step clamd program.session (.advance number now) with
      | none => []
      | some session =>
          match (session.calls[number]?).bind finishedOutcome with
          | none => []
          | some _ => [.finishScan number]
  | .stepReady number => [.stepReady number]
  | .resume completed => [.resume completed]
  | _ => []

theorem loopAnswer_single (clamd : Clamd κ) (program : Program κ) (label : Label κ) :
    (loopAnswer clamd program label).length ≤ 1 := by
  cases label with
  | watch label =>
      simp only [loopAnswer, requestedAt, List.length_map]
      cases OnDemand.putter (program.session.watch, label) <;> simp
  | advance number now =>
      simp only [loopAnswer]
      split
      · simp
      · split <;> simp
  | gather | scanFiles | change | read | stepReady | resume => simp [loopAnswer]

/-- A finished task stays as it is. -/
theorem finished_stays
    (stepped : step config clamd program label = some after) {number : Nat} {task : ScanTask}
    {ended : Outcome} (stored : program.loop.scans[number]? = some task)
    (finished : task.outcome = some ended) : after.loop.scans[number]? = some task := by
  have inside := (List.getElem?_eq_some_iff.mp stored).1
  have appended : ∀ {loop : ScanLoop} {paths : List Str},
      loop.scans = program.loop.scans ++ paths.map (fun path => ⟨path, none⟩) →
        loop.scans[number]? = some task := by
    intro loop paths scans
    rw [scans, List.getElem?_append_left inside, stored]
  cases step_taken stepped with
  | scanFiles stage =>
      obtain ⟨started, starts⟩ := ScanLoop.enter_starts config.maxScans { program.loop with
        filesToScan := if config.watch then program.session.watch.q
          else program.session.watch.q.finish.2 }
      exact appended starts.scans
  | finish other now session outcome loop taken found ends =>
      obtain ⟨path, running, rfl⟩ := step_finishScan ends
      change (program.loop.scans.set other _)[number]? = some task
      rw [Transition.getElem?_replace running, if_neg, stored]
      rintro rfl
      rw [running] at stored
      obtain rfl := Option.some.inj stored
      cases finished
  | stepReady other loop idle taken =>
      change loop.scans[number]? = some task
      rw [(ScanLoop.stepReady_keeps taken).1, stored]
  | resume completed loop idle taken =>
      obtain ⟨started, starts⟩ := ScanLoop.resume_starts taken
      exact appended starts.scans
  | gather | watch | change | goOn | read => exact stored

/-- Outcomes that are right afterwards are right before. -/
theorem Foresees.before {outcome : Nat → Str → Outcome} (foresees : Foresees outcome after.session)
    (coherent : Coherent config program) (afterCoherent : Coherent config after)
    (stepped : step config clamd program label = some after) : Foresees outcome program.session := by
  intro number call ended stored finished
  have task : program.loop.scans[number]? = some (taskOf call) := by
    rw [coherent.scans, List.getElem?_map, stored]
    rfl
  have stays := finished_stays stepped task finished
  rw [afterCoherent.scans, List.getElem?_map] at stays
  obtain ⟨later, found, same⟩ := Option.map_eq_some_iff.mp stays
  have path : later.path = call.path := congrArg ScanTask.path same
  have again : finishedOutcome later = some ended := (congrArg ScanTask.outcome same).trans finished
  exact path ▸ foresees number later ended found again

/-- After its beginning the loop answers each step of the program. -/
theorem loop_answered {outcome : Nat → Str → Outcome} (foresees : Foresees outcome after.session)
    (coherent : Coherent config program) (scanning : program.stage = .scanning)
    (stepped : step config clamd program label = some after) (paths : List Str) :
    after.stage = .scanning ∧
      steps (ScanLoop.system ⟨config.maxScans, config.watch, outcome⟩ paths)
        (loopAnswer clamd program label) program.loop = some after.loop := by
  have waiting := step_waiting stepped
  cases step_taken stepped with
  | gather files left stage =>
      rw [scanning] at stage
      cases stage
  | scanFiles stage =>
      rw [scanning] at stage
      cases stage
  | watch label session watching other taken =>
      refine ⟨scanning, ?_⟩
      have isOpen := coherent.isOpen (.inl watching)
      obtain ⟨watch, moved, rfl⟩ := Option.map_eq_some_iff.mp taken
      obtain ⟨_, queue⟩ := OnDemand.step_queue isOpen other moved
      simp only [Session.noteRemoval_watch, loopAnswer, requestedAt]
      cases puts : OnDemand.putter (program.session.watch, label) with
      | none =>
          rw [puts, ← coherent.queue] at queue
          simp only [Option.map_none, Option.toList_none, List.map_nil, steps_nil, setQueue]
          rw [queue]
      | some put =>
          rw [puts, ← coherent.queue] at queue
          refine (steps_single _ _ _).trans ?_
          change ScanLoop.step _ program.loop (.put put.2) = _
          simp only [ScanLoop.step, waiting, watching, if_true, setQueue, queue]
  | change path entry session taken => exact ⟨scanning, rfl⟩
  | goOn number now session taken unfinished =>
      refine ⟨scanning, ?_⟩
      simp only [loopAnswer, taken, unfinished]
      rfl
  | finish number now session ended loop taken finished ends =>
      refine ⟨scanning, ?_⟩
      simp only [loopAnswer, taken, finished]
      refine (steps_single _ _ _).trans ?_
      obtain ⟨path, running, rfl⟩ := step_finishScan ends
      have known : outcome number path = (scanConfig config session).outcome number path := by
        obtain ⟨call, stored, told⟩ := Option.bind_eq_some_iff.mp finished
        have named : call.path = path := by
          obtain ⟨before, next, _, held, _, _, same, _, rfl⟩ := step_advance taken
          rw [coherent.scans, List.getElem?_map, held] at running
          obtain rfl := Option.some.inj ((List.getElem?_set_self (List.getElem?_eq_some_iff.mp held).1).symm.trans stored)
          exact same.trans (congrArg ScanTask.path (Option.some.inj running))
        rw [← named]
        exact (foresees number call ended stored told).trans (outcomes_eq stored told).symm
      change ScanLoop.step _ program.loop (.finishScan number) = _
      simp only [ScanLoop.step, waiting, if_true, running, known]
  | read number session taken => exact ⟨scanning, rfl⟩
  | stepReady number loop idle taken =>
      refine ⟨scanning, (steps_single _ _ _).trans ?_⟩
      exact (if_pos waiting).trans taken
  | resume completed loop idle taken => exact ⟨scanning, (steps_single _ _ _).trans taken⟩

/-- Before the loop begins the queue holds what has been put in it. -/
def Gathers (past : List (Program κ × Label κ)) (last : Program κ) : Prop :=
  ∀ left, last.stage = .gathering left → last.session.watch.q = putAll .initial (requested past)

/-- Since its beginning the loop has a run of its own, whatever outcomes the unfinished calls get. -/
def LoopRuns (config : ProgramConfig) (clamd : Clamd κ) (past : List (Program κ × Label κ))
    (last : Program κ) : Prop :=
  last.stage = .scanning → ∃ later state beginning, past = later ++ (state, .scanFiles) :: beginning ∧
    ∀ outcome, Foresees outcome last.session → ∃ trace,
      Run (ScanLoop.system ⟨config.maxScans, config.watch, outcome⟩ (requested beginning)) trace
        last.loop ∧ trace.map Prod.snd = (answers (loopAnswer clamd) later).reverse ∧
      ∀ step ∈ trace, ∃ origin ∈ later, origin.1.loop = step.1 ∧
        loopAnswer clamd origin.1 origin.2 = [step.2]

variable {past : List (Program κ × Label κ)}

theorem putAll_append (q : FinishableQueue Str) (first second : List Str) :
    putAll q (first ++ second) = putAll (putAll q first) second := List.foldl_append

theorem gathers_step (gathers : Gathers past program) (coherent : Coherent config program)
    (stepped : step config clamd program label = some after) :
    Gathers ((program, label) :: past) after := by
  intro left gathering
  rw [requested, answers_cons, putAll_append]
  cases step_taken stepped with
  | gather files left stage =>
      rw [← requested, ← gathers _ stage]
      simp only [requestedAt, stage, setQueue]
  | scanFiles => cases gathering
  | watch inner session watching other taken =>
      obtain ⟨watch, moved, rfl⟩ := Option.map_eq_some_iff.mp taken
      obtain ⟨_, queue⟩ := OnDemand.step_queue (coherent.isOpen (.inl watching)) other moved
      rw [← requested, ← gathers left gathering]
      simp only [Session.noteRemoval_watch, setQueue, requestedAt, queue]
      cases OnDemand.putter (program.session.watch, inner) <;> rfl
  | change path entry session taken =>
      obtain rfl := Option.some.inj taken
      exact gathers left gathering
  | goOn number now session taken =>
      obtain ⟨_, _, _, _, _, _, _, _, rfl⟩ := step_advance taken
      exact gathers left gathering
  | finish number now session outcome loop taken =>
      obtain ⟨_, _, _, _, _, _, _, _, rfl⟩ := step_advance taken
      exact gathers left gathering
  | read number session taken =>
      obtain ⟨_, _, moved⟩ := Option.bind_eq_some_iff.mp taken
      obtain ⟨_, _, rfl⟩ := Option.map_eq_some_iff.mp moved
      exact gathers left gathering
  | stepReady number loop idle taken =>
      have scanning := scanning_of_stepReady coherent taken
      rw [show program.stage = .gathering left from gathering] at scanning
      cases scanning
  | resume completed loop idle taken =>
      have scanning := scanning_of_resume coherent taken
      rw [show program.stage = .gathering left from gathering] at scanning
      cases scanning

/-- The loop begins with the queue that the gathering has left. -/
theorem beginLoop_loop (gathers : Gathers past program) (coherent : Coherent config program)
    (stage : program.stage = .gathering []) (outcome : Nat → Str → Outcome) :
    (program.beginLoop config).loop =
      ScanLoop.atStart ⟨config.maxScans, config.watch, outcome⟩ (requested past) := by
  have queue := gathers [] stage
  simp only [beginLoop, setLoop, coherent.before [] stage, queue]
  rfl

theorem loopRuns_step (runs : LoopRuns config clamd past program) (gathers : Gathers past program)
    (coherent : Coherent config program) (afterCoherent : Coherent config after)
    (stepped : step config clamd program label = some after) :
    LoopRuns config clamd ((program, label) :: past) after := by
  intro scanning
  cases before : program.stage with
  | gathering left =>
      cases step_taken stepped with
      | scanFiles stage idle =>
          refine ⟨[], program, past, rfl, ?_⟩
          intro outcome _
          exact ⟨[], .start (beginLoop_loop gathers coherent stage outcome), rfl, by simp⟩
      | gather => cases scanning
      | watch | change | goOn | finish | read | stepReady | resume =>
          rw [show program.stage = .scanning from scanning] at before
          cases before
  | scanning =>
      obtain ⟨later, state, beginning, rfl, foretold⟩ := runs before
      refine ⟨(program, label) :: later, state, beginning, rfl, ?_⟩
      intro outcome foresees
      obtain ⟨_, answered⟩ := loop_answered foresees coherent before stepped (requested beginning)
      obtain ⟨trace, run, shown, origins⟩ := foretold outcome (foresees.before coherent afterCoherent stepped)
      have older : ∀ step ∈ trace, ∃ origin ∈ (program, label) :: later, origin.1.loop = step.1 ∧
          loopAnswer clamd origin.1 origin.2 = [step.2] := by
        intro step member
        obtain ⟨origin, inside, same⟩ := origins step member
        exact ⟨origin, List.mem_cons_of_mem _ inside, same⟩
      match labels : loopAnswer clamd program label, loopAnswer_single clamd program label with
      | [], _ =>
          rw [labels, steps_nil, Option.some.injEq] at answered
          exact ⟨trace, answered ▸ run, by rw [shown, answers_cons, labels, List.append_nil], older⟩
      | [reply], _ =>
          rw [labels, steps_single] at answered
          refine ⟨(program.loop, reply) :: trace, run.next answered, ?_, ?_⟩
          · rw [List.map_cons, shown, answers_cons, labels, List.reverse_append]
            rfl
          intro step member
          rcases List.mem_cons.mp member with rfl | member
          · exact ⟨(program, label), List.mem_cons_self, rfl, labels⟩
          · exact older step member

/-- The loop runs by itself from its beginning, in every run of the program. -/
theorem loop_run {files : Files} {last : Program κ} (run : Run (system config clamd files) past last) :
    Gathers past last ∧ LoopRuns config clamd past last := by
  induction run with
  | @start state begins =>
      obtain ⟨stage, watch, _⟩ := begins
      refine ⟨fun left _ => watch.2.2.2.1, fun scanning => ?_⟩
      rw [stage] at scanning
      cases scanning
  | @next past state after label earlier taken ih =>
      have coherent := (coherent_run earlier).1
      have afterCoherent := (coherent_run (earlier.next taken)).1
      exact ⟨gathers_step ih.1 coherent taken, loopRuns_step ih.2 ih.1 coherent afterCoherent taken⟩

/-- The watcher, the session and the loop have runs of their own in a run of the program. The run of the loop begins
with the paths that have been requested before it, and its scans have the outcomes of the calls. -/
structure Parts (config : ProgramConfig) (clamd : Clamd κ) (files : Files)
    (past : List (Program κ × Label κ)) (last : Program κ) : Prop where
  watcher : ∃ trace watch, Run OnDemand.system trace watch ∧ WatcherMirrors last watch ∧
    trace.map Prod.snd = (answers watcherAnswer past).reverse
  session : files = (fun _ => none) → ∃ trace session, Run (Session.system clamd) trace session ∧
    SessionMirrors last session ∧
      trace.map Prod.snd = (answers (sessionAnswer config clamd) past).reverse
  loop : last.stage = .scanning → ∃ later state beginning trace, past = later ++ (state, .scanFiles) :: beginning ∧
    Run (ScanLoop.system (scanConfig config last.session) (requested beginning)) trace last.loop ∧
      trace.map Prod.snd = (answers (loopAnswer clamd) later).reverse

theorem parts_run {files : Files} {last : Program κ} (run : Run (system config clamd files) past last) :
    Parts config clamd files past last where
  watcher := (watch_simulates config clamd files).run run (coherent_meets run)
  session fresh := by
    subst fresh
    exact (session_simulates config clamd).run run (coherent_meets run)
  loop scanning := by
    obtain ⟨later, state, beginning, same, foretold⟩ := (loop_run run).2 scanning
    obtain ⟨trace, loopRun, shown, _⟩ := foretold _ (foresees_outcomes last.session)
    exact ⟨later, state, beginning, trace, same, loopRun, shown⟩

/-- The disk of this program has one infected file. -/
def exampleStart (directories : List (List Str)) : Program Bool :=
  ⟨.gathering directories, Session.atStart (Session.singleFile Session.infected), beforeLoop⟩

theorem exampleStart_run (maxScans : Int) (watch : Bool) (directories : List (List Str)) :
    Run (system ⟨maxScans, watch, directories⟩ Session.exampleClamd fun _ => none) []
      (exampleStart directories) :=
  .start ⟨rfl, ⟨rfl, rfl, rfl, rfl, rfl, rfl⟩, rfl, rfl, rfl, rfl⟩

/-- The parts of a run that scans a gathered file while it watches. -/
theorem parts_run_single : ∃ past last,
    Run (system ⟨1, true, [[text "/a"]]⟩ Session.exampleClamd fun _ => none) past last ∧
      past.length = 8 ∧
      Parts ⟨1, true, [[text "/a"]]⟩ Session.exampleClamd (fun _ => none) past last := by
  have run := (exampleStart_run 1 true [[text "/a"]]).follow [.gather, .scanFiles, .advance 0 [],
    .advance 0 [], .watch (.receive [⟨text "/a", .remove⟩]), .watch .handle, .advance 0 [],
    .read 0] rfl
  exact ⟨_, _, run, rfl, parts_run run⟩

end Program

end ClamavDbscan
