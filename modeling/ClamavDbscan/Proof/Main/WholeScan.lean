import ClamavDbscan.Proof.Main.WatchedFiles
import ClamavDbscan.Proof.Scanner.QuietScan

/-
This file proves what a whole scan without a watcher does on a disk that does not change.
-/

namespace ClamavDbscan

open Transition

variable {κ : Type}

/-- These many steps are left for a call. -/
def Call.stepsLeft (call : Call κ) : Nat :=
  match call.phase with
  | .created => 5
  | .looked => 4
  | .statted _ => 3
  | .sent _ => 2
  | .replied _ _ => 1
  | .finished _ => 0

theorem Call.stepsLeft_pos {call : Call κ} (pending : Program.finishedOutcome call = none) :
    0 < call.stepsLeft := by
  unfold stepsLeft
  cases phase : call.phase with
  | finished outcome => simp [Program.finishedOutcome, phase] at pending
  | created | looked | statted | sent | replied => simp

theorem Call.stepsLeft_advance {disk : Disk κ} {files after : Files} {now : Str} {call next : Call κ}
    (advanced : Call.Advanced disk files now call next after)
    (pending : Program.finishedOutcome call = none) : next.stepsLeft < call.stepsLeft := by
  cases advanced with
  | raised => exact stepsLeft_pos pending
  | hit => exact stepsLeft_pos pending
  | miss entry fresh => simp [stepsLeft, fresh]
  | stat entry looked => simp [stepsLeft, looked]
  | send entry statted => simp [stepsLeft, statted]
  | store => exact stepsLeft_pos pending

theorem Call.stepsLeft_read {clamd : Clamd κ} {disk : Disk κ} {call next : Call κ}
    (replied : call.read clamd disk = some next) : next.stepsLeft < call.stepsLeft := by
  unfold Call.read at replied
  split at replied
  · rename_i entry sent
    obtain rfl := Option.some.inj replied
    simp [stepsLeft, sent]
  · contradiction

/-- A call that is neither finished nor sent goes on. -/
theorem Call.advance_isSome (call : Call κ) (pending : call.stepsLeft ≠ 0)
    (unsent : ∀ entry, call.phase ≠ .sent entry) (disk : Disk κ) (files : Files) (now : Str) :
    ∃ result, call.advance disk files now = some result := by
  unfold Call.advance
  cases phase : call.phase with
  | created =>
      dsimp only
      cases disk call.path with
      | error raised => exact ⟨_, rfl⟩
      | ok entry =>
          dsimp only
          cases ClamAVDB.cachedResult files call.path call.cacheOk entry.stat with
          | error raised => exact ⟨_, rfl⟩
          | ok hit => cases hit <;> exact ⟨_, rfl⟩
  | looked =>
      dsimp only
      cases disk call.path with
      | error raised => exact ⟨_, rfl⟩
      | ok entry =>
          dsimp only
          cases ClambScanMgr.statForScan call.path none (.ok entry.stat) <;> exact ⟨_, rfl⟩
  | statted entry =>
      dsimp only
      cases ClambScanMgr.sendScan call.path <;> exact ⟨_, rfl⟩
  | sent entry => exact absurd phase (unsent entry)
  | replied entry reply =>
      dsimp only
      cases parseReply call.path entry.stat (replyLines reply) now <;> exact ⟨_, rfl⟩
  | finished outcome => simp [stepsLeft, phase] at pending

namespace Program

/-- These many steps are left for the calls together. -/
def callsLeft : List (Call κ) → Nat
  | [] => 0
  | call :: others => call.stepsLeft + callsLeft others

theorem callsLeft_append (first second : List (Call κ)) :
    callsLeft (first ++ second) = callsLeft first + callsLeft second := by
  induction first with
  | nil => rw [List.nil_append, callsLeft, Nat.zero_add]
  | cons call first ih => rw [List.cons_append, callsLeft, callsLeft, ih, Nat.add_assoc]

theorem callsLeft_created {calls : List (Call κ)} (created : ∀ call ∈ calls, call.phase = .created) :
    callsLeft calls = 5 * calls.length := by
  induction calls with
  | nil => rfl
  | cons call others ih =>
      have first : call.stepsLeft = 5 := by rw [Call.stepsLeft, created call List.mem_cons_self]
      rw [callsLeft, first, ih fun other member => created other (List.mem_cons_of_mem _ member),
        List.length_cons]
      omega

/-- A call that goes on leaves fewer steps. -/
theorem callsLeft_replace {calls : List (Call κ)} {number : Nat} {call next : Call κ}
    (stored : calls[number]? = some call) (lighter : next.stepsLeft < call.stepsLeft) :
    callsLeft (calls.set number next) < callsLeft calls := by
  induction calls generalizing number with
  | nil => contradiction
  | cons head tail ih =>
      cases number with
      | zero =>
          obtain rfl := Option.some.inj stored
          exact Nat.add_lt_add_right lighter _
      | succ number => exact Nat.add_lt_add_left (ih stored) _

variable {config : ProgramConfig} {clamd : Clamd κ} {files : Files} {disk : Disk κ}
  {past : List (Program κ × Label κ)} {program last after : Program κ} {label : Label κ}

/-- The disk does not change. -/
def Undisturbed (_ : Program κ) : Label κ → Prop
  | .change _ _ => False
  | _ => True

instance (program : Program κ) : (label : Label κ) → Decidable (Undisturbed program label)
  | .change _ _ => inferInstanceAs (Decidable False)
  | .gather | .scanFiles | .watch _ | .advance _ _ | .read _ | .stepReady _ | .resume _ => isTrue trivial

/-- The clock has moved on since the last output whenever the loop reports an exception. -/
def ClockAdvances (program : Program κ) : Label κ → Prop
  | .resume completed => ScanLoop.ClockAdvances program.loop (.resume completed)
  | _ => True

instance (program : Program κ) : (label : Label κ) → Decidable (ClockAdvances program label)
  | .resume completed =>
      inferInstanceAs (Decidable (ScanLoop.ClockAdvances program.loop (.resume completed)))
  | .gather | .scanFiles | .watch _ | .change _ _ | .advance _ _ | .read _ | .stepReady _ => isTrue trivial

/-- New calls are created with the default arguments. -/
theorem tracked_setLoop {loop : ScanLoop} (tracked : program.session.Tracked clamd disk files) :
    (program.setLoop loop).session.Tracked clamd disk files := by
  refine tracked.append loop.filesToScan ?_
  intro call member
  obtain ⟨task, _, rfl⟩ := List.mem_map.mp member
  exact ⟨rfl, rfl⟩

/-- On a quiet disk each step of a program without a watcher keeps its session on track. -/
theorem tracked_step (notWatching : config.watch = false)
    (tracked : program.session.Tracked clamd disk files) (undisturbed : Undisturbed program label)
    (stepped : step config clamd program label = some after) :
    after.session.Tracked clamd disk files := by
  cases step_taken stepped with
  | gather paths left => exact ⟨tracked.idle, tracked.quiet, tracked.table, tracked.calls, tracked.added⟩
  | scanFiles =>
      have begun : Session.Tracked clamd disk files { program with stage := .scanning }.session := tracked
      exact tracked_setLoop begun
  | watch label session watching => rw [notWatching] at watching; contradiction
  | change path entry session => exact undisturbed.elim
  | goOn number now session taken => exact tracked.advance taken
  | finish number now session outcome loop taken => exact tracked.advance taken
  | read number session taken => exact tracked.read taken
  | stepReady number loop => exact tracked_setLoop tracked
  | resume completed loop => exact tracked_setLoop tracked

/-- Without a watcher the program requests the files of the directories in their order. -/
theorem requested_eq (notWatching : config.watch = false)
    (run : Run (system config clamd files) past last) :
    requested past ++ last.stage.left.flatten = config.directories.flatten := by
  have all : requested past = (observed gatheredAt past).flatten := by
    induction run with
    | start => rfl
    | @next past state after label _ stepped ih =>
        rw [requested, answers_cons, ← requested, ih, observed_cons, List.flatten_append]
        congr 1
        cases step_taken stepped with
        | gather paths left stage => simp [requestedAt, gatheredAt, stage, Stage.left]
        | watch label session watching => rw [notWatching] at watching; contradiction
        | scanFiles | change | goOn | finish | read | stepReady | resume => rfl
  rw [all, ← List.flatten_append, gathered_run run]

/-- A path that is not gathered weighs seven, a queued one or a call what is left to do for it. -/
def stepsLeft (program : Program κ) : Nat :=
  (if program.stage = .scanning then 0 else 1) + program.stage.left.length +
    7 * program.stage.left.flatten.length + 5 * program.session.watch.q.len +
    callsLeft program.session.calls + program.loop.weight

/-- Since its beginning the loop has run with the gathered files. -/
theorem loop_since (notWatching : config.watch = false) (run : Run (system config clamd files) past program)
    (scanning : program.stage = .scanning) {outcome : Nat → Str → Outcome}
    (foresees : Foresees outcome program.session) : ∃ trace,
      Run (ScanLoop.system ⟨config.maxScans, config.watch, outcome⟩ config.directories.flatten) trace
        program.loop ∧
      ∀ taken ∈ trace, ∃ origin ∈ past, origin.1.loop = taken.1 ∧
        loopAnswer clamd origin.1 origin.2 = [taken.2] := by
  obtain ⟨later, state, beginning, rfl, foretold⟩ := (loop_run run).2 scanning
  obtain ⟨trace, loopRun, _, origins⟩ := foretold _ foresees
  have gathered : requested beginning = config.directories.flatten := by
    obtain ⟨after, before, stepped⟩ := run.split
    have all := requested_eq notWatching before
    have stage : state.stage = .gathering [] := by
      change step config clamd state .scanFiles = some after at stepped
      cases step_taken stepped with
      | scanFiles stage => exact stage
    rw [stage] at all
    simpa [Stage.left] using all
  rw [gathered] at loopRun
  refine ⟨trace, loopRun, fun taken member => ?_⟩
  obtain ⟨origin, listed, same⟩ := origins taken member
  exact ⟨origin, List.mem_append_left _ listed, same⟩

/-- The loop that runs is sound for every right guess of the outcomes. -/
theorem sound_loop (positive : 1 ≤ config.maxScans) (notWatching : config.watch = false)
    (run : Run (system config clamd files) past program) (scanning : program.stage = .scanning)
    {outcome : Nat → Str → Outcome} (foresees : Foresees outcome program.session) :
    ScanLoop.Sound ⟨config.maxScans, config.watch, outcome⟩ config.directories.flatten program.loop := by
  obtain ⟨trace, loopRun, _⟩ := loop_since notWatching run scanning foresees
  exact ScanLoop.sound_run positive notWatching loopRun

/-- A loop that goes on moves its paths from the queue to new calls. -/
theorem stepsLeft_setLoop {loop : ScanLoop} {paths : List Str} (coherent : Coherent config program)
    (starts : ScanLoop.Starts program.loop loop paths)
    (lighter : loop.weight < program.loop.weight) : (program.setLoop loop).stepsLeft < program.stepsLeft := by
  obtain ⟨calls, _⟩ := map_setLoop coherent starts.scans
  have created : callsLeft (paths.map fun path => (newCall ⟨path, none⟩ : Call κ)) =
      5 * paths.length := by
    rw [callsLeft_created, List.length_map]
    intro call member
    obtain ⟨path, _, rfl⟩ := List.mem_map.mp member
    rfl
  have queue : program.session.watch.q.len = paths.length + loop.filesToScan.len := by
    rw [← coherent.queue, FinishableQueue.len, starts.queue, List.length_append]
    rfl
  have same : (program.setLoop loop).session.watch.q.len = loop.filesToScan.len := rfl
  have stage : (program.setLoop loop).stage = program.stage := rfl
  have weight : (program.setLoop loop).loop.weight = loop.weight := rfl
  rw [stepsLeft, stepsLeft, calls, callsLeft_append, created, queue, same, stage, weight]
  omega

/-- The gathering weighs the queue of the loop, which has no task yet. -/
theorem weight_gathering {left : List (List Str)} (coherent : Coherent config program)
    (stage : program.stage = .gathering left) :
    program.loop.weight = 2 * program.session.watch.q.len ∧ program.session.calls = [] := by
  have loop := coherent.before left stage
  constructor
  · rw [loop]
    simp [ScanLoop.weight, beforeLoop]
  · have scans := coherent.scans
    rw [loop] at scans
    exact List.map_eq_nil_iff.mp scans.symm

/-- The beginning of the loop moves its first paths to calls. -/
theorem stepsLeft_beginLoop (positive : 1 ≤ config.maxScans) (notWatching : config.watch = false)
    (run : Run (system config clamd files) past program) (stage : program.stage = .gathering [])
    (ordered : (program.beginLoop config).InOrder (requested past)) :
    (program.beginLoop config).stepsLeft < program.stepsLeft := by
  obtain ⟨coherent, inOrder⟩ := coherent_run run
  obtain ⟨before, calls⟩ := weight_gathering coherent stage
  have begins : (program.beginLoop config).loop =
      ScanLoop.atStart (scanConfig config program.session) (requested past) :=
    beginLoop_loop (loop_run run).1 coherent stage _
  have weight : (program.beginLoop config).loop.weight = 2 * (requested past).length := by
    rw [begins]
    exact (ScanLoop.atStart_spec positive notWatching).2
  have queue : (requested past).length = program.session.watch.q.len := by
    rw [← inOrder, coherent.scans, calls]
    rfl
  have moved : (program.beginLoop config).session.calls =
      (program.beginLoop config).loop.scans.map newCall := by
    simp only [beginLoop, setLoop, calls, List.nil_append, List.length_nil, List.drop_zero]
  have total : (program.beginLoop config).loop.scans.length +
      (program.beginLoop config).session.watch.q.len = (requested past).length := by
    rw [← ordered, List.length_append, List.length_map]
    rfl
  have scanning : (program.beginLoop config).stage = .scanning := rfl
  have created : ∀ call ∈ (program.beginLoop config).loop.scans.map (newCall (κ := κ)), call.phase = .created := by
    intro call member
    obtain ⟨task, _, rfl⟩ := List.mem_map.mp member
    rfl
  rw [stepsLeft, stepsLeft, moved, callsLeft_created created, List.length_map, weight, before, calls,
    scanning, stage]
  simp only [Stage.left, List.length_nil, List.flatten_nil, if_true, reduceCtorEq, if_false, callsLeft]
  omega

/-- Each step of an undisturbed program without a watcher leaves fewer steps. -/
theorem stepsLeft_step (positive : 1 ≤ config.maxScans) (notWatching : config.watch = false)
    (run : Run (system config clamd files) past program) (undisturbed : Undisturbed program label)
    (stepped : step config clamd program label = some after) : after.stepsLeft < program.stepsLeft := by
  have coherent := (coherent_run run).1
  obtain ⟨afterCoherent, afterOrder⟩ := coherent_run (run.next stepped)
  have waiting := step_waiting stepped
  have foresees := (foresees_outcomes after.session).before coherent afterCoherent stepped
  cases step_taken stepped with
  | gather paths left stage _ =>
      have isOpen := coherent.isOpen (.inr ⟨_, stage⟩)
      obtain ⟨items, _⟩ := ScanLoop.put_all _ isOpen.1 isOpen.2 paths
      obtain ⟨before, calls⟩ := weight_gathering coherent stage
      obtain ⟨later, _⟩ := weight_gathering afterCoherent rfl
      have queue : (putAll program.session.watch.q paths).len =
          program.session.watch.q.len + paths.length := by
        rw [FinishableQueue.len, show (putAll program.session.watch.q paths).q = _ from items,
          List.length_append]
        rfl
      rw [stepsLeft, stepsLeft, later, before]
      simp only [stage, Stage.left, setQueue, queue, calls, List.length_cons, List.flatten_cons,
        List.length_append, reduceCtorEq, if_false]
      omega
  | scanFiles stage _ =>
      rw [requested, answers_cons, ← requested] at afterOrder
      exact stepsLeft_beginLoop positive notWatching run stage (by simpa [requestedAt] using afterOrder)
  | watch label session watching => rw [notWatching] at watching; contradiction
  | change path entry session => exact undisturbed.elim
  | goOn number now session taken unfinished =>
      obtain ⟨call, next, table, stored, pending, advanced, _, _, rfl⟩ := step_advance taken
      have lighter := callsLeft_replace stored (Call.stepsLeft_advance advanced pending)
      simp only [stepsLeft]
      omega
  | finish number now session outcome loop taken finished ended =>
      obtain ⟨call, next, table, stored, pending, advanced, _, _, rfl⟩ := step_advance taken
      have lighter := callsLeft_replace stored (Call.stepsLeft_advance advanced pending)
      obtain ⟨file, running, _⟩ := step_finishScan ended
      have scanning : program.stage = .scanning := by
        cases stage : program.stage with
        | scanning => rfl
        | gathering left =>
            rw [coherent.before left stage] at running
            simp [beforeLoop] at running
      have sound := sound_loop positive notWatching run scanning foresees
      have weight := (ScanLoop.sound_step positive notWatching sound ended).2.1
      simp only [stepsLeft]
      omega
  | read number session taken =>
      obtain ⟨call, stored, moved⟩ := Option.bind_eq_some_iff.mp taken
      obtain ⟨next, replied, rfl⟩ := Option.map_eq_some_iff.mp moved
      have lighter := callsLeft_replace stored (Call.stepsLeft_read replied)
      simp only [stepsLeft]
      omega
  | stepReady number loop _ taken =>
      have scanning := scanning_of_stepReady coherent taken
      obtain ⟨scans, items, mode, waiters⟩ := ScanLoop.stepReady_keeps taken
      have sound := sound_loop positive notWatching run scanning (foresees_outcomes program.session)
      have stepped : ScanLoop.step (scanConfig config program.session) program.loop
          (.stepReady number) = some loop := (if_pos waiting).trans taken
      have starts : ScanLoop.Starts program.loop loop [] :=
        ⟨scans.trans (List.append_nil _).symm, items.symm, mode, waiters⟩
      exact stepsLeft_setLoop coherent starts
        (ScanLoop.sound_step positive notWatching sound stepped).2.1
  | resume completed loop _ taken =>
      have scanning := scanning_of_resume coherent taken
      obtain ⟨paths, starts⟩ := ScanLoop.resume_starts taken
      have sound := sound_loop positive notWatching run scanning (foresees_outcomes program.session)
      exact stepsLeft_setLoop coherent starts
        (ScanLoop.sound_step positive notWatching sound taken).2.1

/-- A run without a watcher on a quiet disk has at most this many steps. -/
theorem length_le (positive : 1 ≤ config.maxScans) (notWatching : config.watch = false)
    (run : Run (system config clamd files) past last) (undisturbed : Meets Undisturbed past) :
    past.length + last.stepsLeft ≤ 1 + config.directories.length + 7 * config.directories.flatten.length := by
  induction run with
  | start begins =>
      obtain ⟨stage, watch, _, calls, _, loop⟩ := begins
      simp [stepsLeft, stage, Stage.left, watch.2.2.2.1, calls, callsLeft, loop, ScanLoop.weight, beforeLoop,
        FinishableQueue.len, FinishableQueue.initial]
  | @next past state after label earlier taken ih =>
      rw [meets_cons] at undisturbed
      have lighter := stepsLeft_step positive notWatching earlier undisturbed.1 taken
      have shorter := ih undisturbed.2
      rw [List.length_cons]
      omega

theorem disk_step (undisturbed : Undisturbed program label)
    (stepped : step config clamd program label = some after) :
    after.session.disk = program.session.disk := by
  cases step_taken stepped with
  | watch inner session watching other taken =>
      obtain ⟨watch, _, rfl⟩ := Option.map_eq_some_iff.mp taken
      exact Session.noteRemoval_disk _ _
  | change path entry session => exact undisturbed.elim
  | goOn number now session taken =>
      obtain ⟨_, _, _, _, _, _, _, _, rfl⟩ := step_advance taken
      rfl
  | finish number now session outcome loop taken =>
      obtain ⟨_, _, _, _, _, _, _, _, rfl⟩ := step_advance taken
      rfl
  | read number session taken =>
      obtain ⟨_, _, moved⟩ := Option.bind_eq_some_iff.mp taken
      obtain ⟨_, _, rfl⟩ := Option.map_eq_some_iff.mp moved
      rfl
  | gather | scanFiles | stepReady | resume => rfl

/-- The session is on track in every state of an undisturbed run. -/
theorem tracked_run (notWatching : config.watch = false) (run : Run (system config clamd files) past last)
    (undisturbed : Meets Undisturbed past) (table : TrueTable clamd last.session.disk files) :
    last.session.Tracked clamd last.session.disk files := by
  induction run with
  | start begins =>
      obtain ⟨_, watch, same, calls, _⟩ := begins
      exact ⟨watch.1, rfl, same ▸ table, fun call member => by rw [calls] at member; contradiction,
        fun path => .inl (by rw [same])⟩
  | @next past state after label earlier taken ih =>
      rw [meets_cons] at undisturbed
      rw [disk_step undisturbed.1 taken] at table ⊢
      exact tracked_step notWatching (ih undisturbed.2 table) undisturbed.1 taken

theorem resultRecord_isSome (result : ClamAVDBFileMetadata) : (resultRecord result).isSome = true ↔
    result.status = text "OK" ∨ result.status = text "FOUND" ∨ result.status = text "ERROR" := by
  unfold resultRecord
  split
  · simp [*]
  · split
    · simp [*]
    · split <;> simp [*]

/-- A verdict that is the same has a record exactly if the other has one. -/
theorem handled_of_same {first second : Outcome} (same : SameVerdict first second) :
    Handled first ↔ Handled second := by
  cases first with
  | error raised =>
      cases second with
      | error other =>
          obtain rfl : raised = other := same
          rfl
      | ok result => exact same.elim
  | ok result =>
      cases second with
      | error raised => exact same.elim
      | ok other =>
          obtain ⟨_, status, _⟩ := same
          change (resultRecord result).isSome = true ↔ (resultRecord other).isSome = true
          rw [resultRecord_isSome, resultRecord_isSome, status]

/-- This outcome is that of the call if it has finished, and any handled one otherwise. -/
def foreseen (session : Session κ) (number : Nat) (_ : Str) : Outcome :=
  ((session.calls[number]?).bind finishedOutcome).getD (.error ⟨.fileNotFoundError, []⟩)

theorem foresees_foreseen (session : Session κ) : Foresees (foreseen session) session := by
  intro number call ended stored finished
  simp [foreseen, stored, finished]

/-- Every path of a quiet disk has a fresh scan with a record. -/
def AllScannable (config : ProgramConfig) (clamd : Clamd κ) (disk : Disk κ) : Prop :=
  ∀ path ∈ config.directories.flatten, Handled (freshScan clamd disk path)

/-- The calls and the queue hold gathered paths. -/
theorem gathered_path (notWatching : config.watch = false) (run : Run (system config clamd files) past last)
    {call : Call κ} (member : call ∈ last.session.calls) : call.path ∈ config.directories.flatten := by
  obtain ⟨coherent, inOrder⟩ := coherent_run run
  rw [← requested_eq notWatching run, ← inOrder, coherent.scans, List.map_map]
  exact List.mem_append_left _ (List.mem_append_left _ (List.mem_map_of_mem member))

/-- A call that has finished on a quiet disk has the verdict of a fresh scan. -/
theorem same_of_finished (notWatching : config.watch = false)
    (run : Run (system config clamd files) past last) (undisturbed : Meets Undisturbed past)
    (table : TrueTable clamd last.session.disk files) {call : Call κ} (member : call ∈ last.session.calls)
    {outcome : Outcome} (finished : call.phase = .finished outcome) :
    SameVerdict outcome (freshScan clamd last.session.disk call.path) := by
  have track := (tracked_run notWatching run undisturbed table).calls call member
  rw [OnTrack, finished] at track
  exact track.1

/-- Only a step of the loop itself is answered by one. -/
theorem resume_of_loopAnswer {completed : List (TaskName × ℚ)}
    (answered : loopAnswer clamd program label = [.resume completed]) : label = .resume completed := by
  cases label with
  | resume other =>
      obtain rfl := ScanLoop.Label.resume.inj (List.singleton_inj.mp answered)
      rfl
  | watch inner =>
      have member : ScanLoop.Label.resume completed ∈ loopAnswer clamd program (.watch inner) := by
        rw [answered]
        exact List.mem_singleton_self _
      obtain ⟨path, _, same⟩ := List.mem_map.mp member
      cases same
  | advance number now =>
      simp only [loopAnswer] at answered
      split at answered
      · cases answered
      · split at answered <;> cases answered
  | gather | scanFiles | change | read | stepReady => cases answered

/-- The loop of an undisturbed run is settled while the clock advances. -/
theorem settled_loop (positive : 1 ≤ config.maxScans) (notWatching : config.watch = false)
    (run : Run (system config clamd files) past last) (undisturbed : Meets Undisturbed past)
    (table : TrueTable clamd last.session.disk files) (advances : Meets ClockAdvances past)
    (scannable : AllScannable config clamd last.session.disk) (scanning : last.stage = .scanning) :
    ScanLoop.Settled ⟨config.maxScans, config.watch, foreseen last.session⟩ config.directories.flatten
      last.loop := by
  obtain ⟨trace, loopRun, origins⟩ := loop_since notWatching run scanning (foresees_foreseen last.session)
  refine ScanLoop.settled_run positive notWatching ?_ loopRun ?_
  · intro number path _
    change Handled (foreseen last.session number path)
    unfold foreseen
    cases ended : (last.session.calls[number]?).bind finishedOutcome with
    | none => rfl
    | some outcome =>
        obtain ⟨call, stored, finished⟩ := Option.bind_eq_some_iff.mp ended
        have member := List.mem_of_getElem? stored
        have same := same_of_finished notWatching run undisturbed table member (finishedOutcome_eq finished)
        exact (handled_of_same same).mpr (scannable _ (gathered_path notWatching run member))
  · intro taken member
    obtain ⟨⟨origin, label⟩, listed, same, answered⟩ := origins taken member
    have allowed := advances _ listed
    obtain ⟨loop, inner⟩ := taken
    obtain rfl : origin.loop = loop := same
    cases inner with
    | resume completed =>
        obtain rfl := resume_of_loopAnswer answered
        exact allowed
    | finishScan | stepReady | put => trivial

/-- A call that is not finished can go on. -/
theorem call_enabled {number : Nat} {path : Str} (coherent : Coherent config program)
    (idle : program.session.watch.inbox = []) (waiting : program.loop.control = .waiting)
    (running : program.loop.scans[number]? = some ⟨path, none⟩) :
    ∃ label after, step config clamd program label = some after ∧ Undisturbed program label ∧
      ClockAdvances program label := by
  have stored := running
  rw [coherent.scans, List.getElem?_map] at stored
  obtain ⟨call, held, same⟩ := Option.map_eq_some_iff.mp stored
  have pending : finishedOutcome call = none := congrArg ScanTask.outcome same
  by_cases sent : ∃ entry, call.phase = .sent entry
  · obtain ⟨entry, sent⟩ := sent
    refine ⟨.read number, ?_⟩
    simp [step, waiting, Session.step, held, Call.read, sent, Undisturbed, ClockAdvances]
  · obtain ⟨⟨next, table⟩, advanced⟩ := call.advance_isSome (Call.stepsLeft_pos pending).ne'
      (fun entry same => sent ⟨entry, same⟩) program.session.disk program.session.watch.files []
    refine ⟨.advance number [], ?_⟩
    simp only [step, waiting, if_true, advance, Session.step, idle, held, Option.bind_some, advanced,
      Option.map_some]
    split
    · exact ⟨_, rfl, trivial, trivial⟩
    · simp [ScanLoop.step, waiting, running, Undisturbed, ClockAdvances]

/-- An undisturbed program goes on while its loop waits and the clock advances. -/
theorem enabled (positive : 1 ≤ config.maxScans) (notWatching : config.watch = false)
    (run : Run (system config clamd files) past last) (undisturbed : Meets Undisturbed past)
    (table : TrueTable clamd last.session.disk files) (advances : Meets ClockAdvances past)
    (scannable : AllScannable config clamd last.session.disk) (waiting : last.loop.control = .waiting) :
    ∃ label after, step config clamd last label = some after ∧ Undisturbed last label ∧
      ClockAdvances last label := by
  have coherent := (coherent_run run).1
  have idle := (tracked_run notWatching run undisturbed table).idle
  cases stage : last.stage with
  | gathering left =>
      cases left with
      | nil => exact ⟨.scanFiles, last.beginLoop config, by simp [step, waiting, stage, idle], trivial, trivial⟩
      | cons paths left =>
          refine ⟨.gather, { last.setQueue (putAll last.session.watch.q paths) with
            stage := .gathering left }, ?_, trivial, trivial⟩
          simp [step, waiting, stage, idle]
  | scanning =>
      have settled := settled_loop positive notWatching run undisturbed table advances scannable stage
      obtain ⟨label, after, moved, later⟩ := ScanLoop.enabled settled waiting
      cases label with
      | finishScan number =>
          obtain ⟨path, running, _⟩ := step_finishScan moved
          exact call_enabled coherent idle waiting running
      | stepReady number =>
          have taken : last.loop.stepReady number = some after := (if_pos waiting).symm.trans moved
          exact ⟨.stepReady number, last.setLoop after, by simp [step, waiting, idle, taken], trivial, trivial⟩
      | put path => simp [ScanLoop.step, waiting, notWatching] at moved
      | resume completed =>
          refine ⟨.resume completed, last.setLoop after, ?_, trivial, later⟩
          simp only [step, waiting, if_true, idle]
          exact Option.map_eq_some_iff.mpr ⟨after, moved, rfl⟩

/-- The record shows the verdict of a fresh scan of the path. -/
def Tells (clamd : Clamd κ) (disk : Disk κ) (path : Str) (record : Record) : Prop :=
  ∃ outcome, SameVerdict outcome (freshScan clamd disk path) ∧ recordOf outcome = some record

/-- Finished calls on a quiet disk have these records. -/
theorem tells_each {table : Files} {calls : List (Call κ)}
    (tracked : ∀ call ∈ calls, OnTrack clamd disk table call)
    (ended : ∀ call ∈ calls, ∃ outcome, call.phase = .finished outcome ∧ Handled outcome) :
    ∃ records : List Record, List.Forall₂ (Tells clamd disk) (calls.map Call.path) records ∧
      records.map some = calls.map fun call => (finishedOutcome call).bind recordOf := by
  induction calls with
  | nil => exact ⟨[], .nil, rfl⟩
  | cons call others ih =>
      obtain ⟨records, tells, shown⟩ := ih (fun other member => tracked other (List.mem_cons_of_mem _ member))
        fun other member => ended other (List.mem_cons_of_mem _ member)
      obtain ⟨outcome, finished, handled⟩ := ended call List.mem_cons_self
      obtain ⟨record, same⟩ := Option.isSome_iff_exists.mp handled
      have track := tracked call List.mem_cons_self
      rw [OnTrack, finished] at track
      refine ⟨record :: records, .cons ⟨outcome, track.1, same⟩ tells, ?_⟩
      simp [finishedOutcome, finished, same, shown]

/-- The table afterwards holds the verdict of each file that has one, and its other rows are those from
before. -/
def UpToDate (clamd : Clamd κ) (disk : Disk κ) (before after : Files) (paths : List Str) : Prop :=
  (∀ path ∈ paths, ∀ result, freshScan clamd disk path = .ok result → Current clamd disk after path) ∧
    ∀ path, path ∉ paths → after path = before path

/-- The loop has returned with nothing left, and every call has finished with a handled outcome. -/
structure Ended (config : ProgramConfig) (last : Program κ) : Prop where
  settled : ScanLoop.Settled ⟨config.maxScans, config.watch, foreseen last.session⟩ config.directories.flatten
    last.loop
  paths : last.session.calls.map Call.path = config.directories.flatten
  calls : ∀ call ∈ last.session.calls, ∃ outcome, call.phase = .finished outcome ∧ Handled outcome

theorem ended_of_returned (positive : 1 ≤ config.maxScans) (notWatching : config.watch = false)
    (run : Run (system config clamd files) past last) (returned : last.loop.control = .returned) :
    Ended config last := by
  obtain ⟨coherent, inOrder⟩ := coherent_run run
  have scanning : last.stage = .scanning := by
    cases stage : last.stage with
    | scanning => rfl
    | gathering left =>
        rw [coherent.before left stage] at returned
        cases returned
  have sound := sound_loop positive notWatching run scanning (foresees_foreseen last.session)
  obtain ⟨settled, handled⟩ := ScanLoop.allHandled_of_returned sound returned
  obtain ⟨_, noTasks, items⟩ : last.loop.control = .returned ∧ last.loop.tasks = [] ∧
      last.loop.filesToScan.q = [] := settled.control.resolve_right fun waits => by
    rw [returned] at waits
    cases waits.1
  have paths : last.session.calls.map Call.path = config.directories.flatten := by
    rw [← requested_eq notWatching run, ← inOrder, ← coherent.queue, items, scanning, coherent.scans,
      List.map_map]
    simp [Stage.left, Function.comp_def, taskOf]
  refine ⟨settled, paths, fun call member => ?_⟩
  obtain ⟨number, inside, rfl⟩ := List.getElem_of_mem member
  have stored : last.loop.scans[number]? = some (taskOf last.session.calls[number]) := by
    rw [coherent.scans, List.getElem?_map, List.getElem?_eq_getElem inside]
    rfl
  cases finished : finishedOutcome last.session.calls[number] with
  | none =>
      have member := settled.accounted.unfinished number _ stored finished
      rw [noTasks] at member
      contradiction
  | some outcome =>
      have queued := settled.accounted.path stored
      have told := handled number _ queued
      have same : foreseen last.session number (taskOf last.session.calls[number]).path = outcome := by
        simp [foreseen, inside, finished]
      change Handled (foreseen last.session number (taskOf last.session.calls[number]).path) at told
      rw [same] at told
      exact ⟨outcome, finishedOutcome_eq finished, told⟩

/-- A loop that has returned has shown every path, the table is up to date, and every fresh scan has a record. -/
theorem returned_complete (positive : 1 ≤ config.maxScans) (notWatching : config.watch = false)
    (run : Run (system config clamd files) past last) (undisturbed : Meets Undisturbed past)
    (table : TrueTable clamd last.session.disk files) (returned : last.loop.control = .returned) :
    (∃ records, records.Perm last.loop.written ∧
        List.Forall₂ (Tells clamd last.session.disk) config.directories.flatten records) ∧
      UpToDate clamd last.session.disk files last.session.watch.files config.directories.flatten ∧
        AllScannable config clamd last.session.disk := by
  obtain ⟨coherent, _⟩ := coherent_run run
  have tracked := tracked_run notWatching run undisturbed table
  obtain ⟨settled, paths, ended⟩ := ended_of_returned positive notWatching run returned
  refine ⟨?_, ⟨?_, ?_⟩, ?_⟩
  · obtain ⟨records, tells, shown⟩ := tells_each tracked.calls ended
    refine ⟨records, ?_, paths ▸ tells⟩
    have written := ScanLoop.returned_records settled returned
    have same : (List.range config.directories.flatten.length).map (recordOf ∘
        ScanLoop.outcomeAt ⟨config.maxScans, config.watch, foreseen last.session⟩ config.directories.flatten) =
          records.map some := by
      rw [shown, ← paths, List.length_map]
      apply List.ext_getElem (by simp)
      intro number _ inside
      rw [List.length_map] at inside
      obtain ⟨outcome, finished, _⟩ := ended _ (List.getElem_mem inside)
      simp [ScanLoop.outcomeAt, foreseen, inside, finishedOutcome, finished]
    rw [same] at written
    simpa using (written.filterMap id).symm
  · intro path member result fresh
    rw [← paths] at member
    obtain ⟨call, listed, rfl⟩ := List.mem_map.mp member
    obtain ⟨outcome, finished, _⟩ := ended call listed
    have track := tracked.calls call listed
    rw [OnTrack, finished, fresh] at track
    cases outcome with
    | error raised => exact track.1.elim
    | ok told => exact track.2 told rfl
  · intro path absent
    refine (tracked.added path).resolve_right ?_
    rintro ⟨_, member⟩
    exact absent (paths ▸ member)
  · intro path member
    rw [← paths] at member
    obtain ⟨call, listed, rfl⟩ := List.mem_map.mp member
    obtain ⟨outcome, finished, handled⟩ := ended call listed
    exact (handled_of_same (same_of_finished notWatching run undisturbed table listed finished)).mp handled

/-- The steps of an undisturbed run are bounded. When the program returns, each gathered file has one record with its
verdict, and the table is up to date. Until then it can always go on, if each file has a fresh scan with a record and
the clock advances. -/
structure WholeScan (config : ProgramConfig) (clamd : Clamd κ) (files : Files)
    (past : List (Program κ × Label κ)) (last : Program κ) : Prop where
  bounded : past.length ≤ 1 + config.directories.length + 7 * config.directories.flatten.length
  complete : last.loop.control = .returned → ∃ records, records.Perm last.loop.written ∧
    List.Forall₂ (Tells clamd last.session.disk) config.directories.flatten records
  table : last.loop.control = .returned →
    UpToDate clamd last.session.disk files last.session.watch.files config.directories.flatten
  goesOn : AllScannable config clamd last.session.disk → Meets ClockAdvances past →
    last.loop.control = .returned ∨ ∃ label after, step config clamd last label = some after ∧
      Undisturbed last label ∧ ClockAdvances last label

theorem whole_scan (positive : 1 ≤ config.maxScans) (notWatching : config.watch = false)
    (run : Run (system config clamd files) past last) (undisturbed : Meets Undisturbed past)
    (table : TrueTable clamd last.session.disk files) : WholeScan config clamd files past last where
  bounded := Nat.le_of_add_right_le (length_le positive notWatching run undisturbed)
  complete returned := (returned_complete positive notWatching run undisturbed table returned).1
  table returned := (returned_complete positive notWatching run undisturbed table returned).2.1
  goesOn scannable advances := by
    have waits : last.loop.control = .returned ∨ last.loop.control = .waiting := by
      cases stage : last.stage with
      | gathering left =>
          rw [(coherent_run run).1.before left stage]
          exact .inr rfl
      | scanning =>
          have settled := settled_loop positive notWatching run undisturbed table advances scannable stage
          exact settled.control.imp (·.1) (·.1)
    exact waits.imp_right (enabled positive notWatching run undisturbed table advances scannable)

end Program

end ClamavDbscan
