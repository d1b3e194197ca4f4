import ClamavDbscan.Proof.Main.SettledFile
import ClamavDbscan.Proof.Protocol.Conveyance

/-
This file proves that a change which the watcher reports is scanned.
-/

namespace ClamavDbscan.Deployment

open Fanotify Watcher Transition

variable {κ : Type} {config : ProgramConfig} {clamd : Clamd κ} {files : Files} {comparePath : Bytes}
  {state before read last : Deployment κ} {fd : Int} {kernel : Kernel} {stack : Stack} {turns : Nat}
  {front back : List JsonEvent} {event : JsonEvent} {later middle earlier past : List (Deployment κ × Label κ)}

/-- No document waits on its way to the scanner, and the scanner has nothing left to do. -/
structure Drained (fd : Int) (state : Deployment κ) : Prop where
  queue : state.watcher.jsonQueue = []
  sends : state.watcher.outstanding fd = none
  socket : state.unread = []
  inbox : state.program.session.watch.inbox = []
  program : state.program.AtRest

/-- The connection of this run is open, its reports can be read, and the scanner drops no write. -/
structure Connected (config : ProgramConfig) (clamd : Clamd κ) (files : Files) (comparePath : Bytes) (fd : Int)
    (before : Deployment κ) (later earlier : List (Deployment κ × Label κ)) (last : Deployment κ) : Prop where
  run : Run (system config clamd files comparePath) (later ++ (before, .connect fd) :: earlier) last
  opened : Open fd last
  once : ∀ taken ∈ later, isConnect taken.2 = false
  deliverable : Meets (Deliverable comparePath) (later ++ (before, .connect fd) :: earlier)
  kept : Meets Program.WritesKept
    (viewed program programLabel (later ++ (before, .connect fd) :: earlier))

/-- A batch reports the write of a file that the scanner watches, and no later report has its path. -/
structure NewestWrite (kernel : Kernel) (comparePath : Bytes) (read : Deployment κ)
    (later : List (Deployment κ × Label κ)) (event : JsonEvent) : Prop where
  reported : ∃ front back, reports kernel comparePath (batch read.kernelQueue) = front ++ event :: back ∧
    ∀ other ∈ back ++ (observed (reportedAt comparePath) later).flatten,
      (fileEvent other).path ≠ (fileEvent event).path
  write : (fileEvent event).operation.isWrite = true
  outside : OnDemand.OutsideTmp (fileEvent event).path

/-- Each report of a batch is handled after the batch has been read, and before all later reports. -/
theorem handled_of_reported (connected : Connected config clamd files comparePath fd before
      (later ++ (read, .fsEvent kernel stack turns) :: middle) earlier last) (drained : Drained fd last)
    (reported : reports kernel comparePath (batch read.kernelQueue) = front ++ event :: back) :
    ∃ behind taken since, later = behind ++ taken :: since ∧ handledAt taken = some (fileEvent event) ∧
      observed handledAt behind = (back ++ (observed (reportedAt comparePath) later).flatten).map fileEvent := by
  obtain ⟨run, opened, once, deliverable, _⟩ := connected
  obtain ⟨_, documents, nothing, total⟩ := reported_eq_handled run opened once deliverable
  rw [drained.socket, eq_comm, List.map_eq_nil_iff] at nothing
  obtain ⟨after, shorter, opening⟩ := open_before (by rwa [List.append_assoc] at run) opened
    fun taken member => once taken (List.mem_append_left _ member)
  obtain ⟨prior, stepped⟩ := shorter.uncons
  change step config clamd comparePath read (.fsEvent kernel stack turns) = some after at stepped
  have reading := (carries_step prior stepped opening rfl).opened
  obtain ⟨_, waiting, _, first⟩ := reported_eq_handled prior reading
    (fun taken member => once taken (List.mem_append_right _ (List.mem_cons_of_mem _ member)))
    (fun taken member => deliverable taken (by
      rw [List.append_assoc]
      exact List.mem_append_right _ (List.mem_cons_of_mem _ member)))
  have unhandled : handledAt (read, (.fsEvent kernel stack turns : Label κ)) = none := rfl
  have reports : reportedAt comparePath (read, (.fsEvent kernel stack turns : Label κ)) =
      some (front ++ event :: back) := congrArg some reported
  rw [observed_append, observed_cons, reports, observed_append, observed_cons, unhandled, List.flatten_append,
    List.flatten_append, Option.toList_some, List.flatten_singleton, ← List.append_assoc, ← List.append_assoc,
    List.map_append, List.map_append, first, nothing, drained.inbox, drained.sends, drained.queue] at total
  have places : observed handledAt later = (read.program.session.watch.inbox ++
      (waiting.flatten ++ (read.watcher.outstanding fd).getD [] ++ read.watcher.jsonQueue.flatten ++
        front).map fileEvent) ++ fileEvent event ::
          (back ++ (observed (reportedAt comparePath) later).flatten).map fileEvent := by
    simpa using total.symm
  obtain ⟨behind, taken, since, same, handles, _, others⟩ := observed_split places
  exact ⟨behind, taken, since, same, handles, others⟩

/-- When no report waits and no deferred task is left, each reported write has been requested since its batch
was read. -/
theorem requested_of_reported (connected : Connected config clamd files comparePath fd before
      (later ++ (read, .fsEvent kernel stack turns) :: middle) earlier last) (drained : Drained fd last)
    (newest : NewestWrite kernel comparePath read later event) :
    (fileEvent event).path ∈ answers Program.requestedAt (viewed program programLabel later) := by
  obtain ⟨⟨front, back, reported, others⟩, write, outside⟩ := newest
  obtain ⟨behind, ⟨state, label⟩, since, rfl, handles, after⟩ :=
    handled_of_reported connected drained reported
  obtain ⟨inner, sees, handles⟩ := Option.bind_eq_some_iff.mp handles
  have run := program_run connected.run
  have kept := connected.kept
  simp only [List.append_assoc, List.cons_append] at run kept
  rw [viewed_append, viewed_cons_some program programLabel _ sees] at run kept ⊢
  rw [answers_append, answers_cons]
  refine List.mem_append_right _ (Program.requested_of_written run kept drained.program.deferred handles write
    outside ?_)
  have quiet := quiet_since connected.run connected.opened connected.once connected.deliverable
  simp only [List.append_assoc, viewed_append] at quiet
  rw [observed_append, List.flatten_append] at quiet
  intro taken member other takes
  have listed : other ∈ (observed Program.taken (viewed program programLabel behind)).flatten :=
    List.mem_flatten.mpr ⟨_, List.mem_reverse.mpr (List.mem_filterMap.mpr ⟨taken, member, rfl⟩), takes⟩
  rw [Program.taken_eq_handled fun event inside => quiet event (List.mem_append_right _ inside),
    observed_viewed] at listed
  change other ∈ observed handledAt behind at listed
  rw [after] at listed
  obtain ⟨report, among, rfl⟩ := List.mem_map.mp listed
  exact others report among

theorem call_of_reported (connected : Connected config clamd files comparePath fd before
      (later ++ (read, .fsEvent kernel stack turns) :: middle) earlier last) (drained : Drained fd last)
    (newest : NewestWrite kernel comparePath read later event) :
    ∃ number call, read.program.session.calls.length ≤ number ∧
      last.program.session.calls[number]? = some call ∧ call.path = (fileEvent event).path := by
  have run := program_run connected.run
  have whole := connected.run
  rw [List.append_assoc] at whole run
  obtain ⟨after, prior, stepped⟩ := whole.split
  -- The batch itself is no step of the program.
  have programRun : Run (Program.system config clamd files) (viewed program programLabel later ++
      viewed program programLabel (middle ++ (before, .connect fd) :: earlier)) last.program := by
    rw [viewed_append] at run
    exact run
  exact Program.scanned_of_requested programRun (program_run prior) drained.program
    (requested_of_reported connected drained newest)

/-- When nothing is left on its way, each reported write has been scanned since its batch was read, unless a later
report has its path. -/
theorem reported_scanned (connected : Connected config clamd files comparePath fd before
      (later ++ (read, .fsEvent kernel stack turns) :: middle) earlier last) (drained : Drained fd last)
    (newest : NewestWrite kernel comparePath read later event) :
    ∃ number call outcome, read.program.session.calls.length ≤ number ∧
      last.program.session.calls[number]? = some call ∧ call.path = (fileEvent event).path ∧
      call.phase = .finished outcome ∧ last.program.loop.HasRecord outcome := by
  obtain ⟨number, call, since, stored, named⟩ := call_of_reported connected drained newest
  obtain ⟨outcome, finished, record⟩ :=
    Program.recorded_of_atRest (program_run connected.run) drained.program stored
  exact ⟨number, call, outcome, since, stored, named, finished, record⟩

/-- A file that is settled when a batch is read stays settled until it changes. -/
theorem settled_since {path : Str} {entry : Entry κ} {since : Nat}
    (run : Run (system config clamd files comparePath) (later ++ (read, .fsEvent kernel stack turns) :: past) last)
    (settled : read.program.session.Settled clamd path entry since)
    (untouched : Meets (Program.Untouched path) (viewed program programLabel later)) :
    last.program.session.Settled clamd path entry since := by
  induction later generalizing last with
  | nil =>
      have stepped : step config clamd comparePath read (.fsEvent kernel stack turns) = some last := run.uncons.2
      cases step_taken stepped with
      | fsEvent => exact settled
  | cons taken later ih =>
      obtain ⟨state, label⟩ := taken
      obtain ⟨prior, stepped⟩ := run.uncons
      have moved := program_step stepped
      cases sees : programLabel state label with
      | none =>
          rw [sees] at moved
          have quiet : viewed program programLabel ((state, label) :: later) =
              viewed program programLabel later := by simp [viewed, sees]
          rw [quiet] at untouched
          exact (show last.program = state.program from moved) ▸ ih prior untouched
      | some inner =>
          rw [sees] at moved
          rw [viewed_cons_some program programLabel later sees, meets_cons] at untouched
          exact Program.settled_step (ih prior untouched.2) untouched.1 moved

/-- The last report of a file that does not change any more leads to the verdict of the file as it is. -/
theorem reported_verdict {entry : Entry κ} (connected : Connected config clamd files comparePath fd before
      (later ++ (read, .fsEvent kernel stack turns) :: middle) earlier last) (drained : Drained fd last)
    (newest : NewestWrite kernel comparePath read later event)
    (settled : read.program.session.Settled clamd (fileEvent event).path entry read.program.session.calls.length)
    (untouched : Meets (Program.Untouched (fileEvent event).path) (viewed program programLabel later)) :
    ∃ (number : Nat) (call : Call κ) (outcome : Outcome), last.program.session.calls[number]? = some call ∧
      call.path = (fileEvent event).path ∧ call.phase = .finished outcome ∧ last.program.loop.HasRecord outcome ∧
      SameVerdict outcome (freshScan clamd last.program.session.disk (fileEvent event).path) := by
  obtain ⟨number, call, since, stored, named⟩ := call_of_reported connected drained newest
  obtain ⟨outcome, finished, record⟩ :=
    Program.recorded_of_atRest (program_run connected.run) drained.program stored
  have run := connected.run
  rw [List.append_assoc] at run
  have final := settled_since run settled untouched
  exact ⟨number, call, outcome, stored, named, finished, record, final.verdict stored since named finished⟩

/-- The disk of this scanner has one infected file, and the kernel queues its changes. -/
def exampleInfected (kernelQueue : List KernelEvent) : Deployment Bool :=
  { exampleConnected with
    kernelQueue := kernelQueue
    program := ⟨.gathering [], Session.atStart (onlyFile (text "/w/a") Session.infected), Program.beforeLoop⟩ }

def exampleUnconnected : Deployment Bool :=
  { exampleInfected [] with watcher := .initial, socket := none }

theorem exampleInfected_run : Run exampleSystem
    [(exampleInfected [], .fileChanged closedFile), (exampleUnconnected, .connect 7)]
    (exampleInfected [closedFile]) :=
  .next (.next (.start ⟨rfl, rfl, rfl, rfl, rfl, rfl, ⟨rfl, rfl, rfl, rfl, rfl, rfl⟩, rfl, rfl, rfl, rfl⟩) rfl) rfl

/-- The report goes through the watcher and the socket, and the file is scanned after its delay. -/
def exampleScan : List (Label Bool) :=
  [.callback .idle, .callback (.writeable 7 true), .read, .scanner (.watch .handle), .scanner .scanFiles,
    .scanner (.stepReady 0), .scanner (.watch (.resume 0)), .scanner (.watch (.tick (seconds 10))),
    .scanner (.watch (.fire 0)), .scanner (.watch (.resume 0)), .scanner (.stepReady 0),
    .scanner (.resume [(.ready 0, 0)]), .scanner (.advance 0 []), .scanner (.advance 0 []),
    .scanner (.advance 0 []), .scanner (.read 0), .scanner (.advance 0 []), .scanner (.resume [(.scan 0, 0)])]

/-- These are the conditions on the steps and on the last state that can be computed. -/
def ExampleEnds (later : List (Deployment Bool × Label Bool)) (last : Deployment Bool) : Prop :=
  (last.socket = some ⟨7, [], false⟩ ∧ last.watcher.jsonQueue = [] ∧ last.watcher.outstanding 7 = none ∧
    last.program.session.watch.inbox = [] ∧ last.program.loop.control = .waiting ∧
    (∀ task ∈ last.program.session.watch.manager.tasks, task.done = true) ∧
    last.program.session.watch.q.q = [] ∧ last.program.loop.tasks = [.ready 1]) ∧
  (∀ taken ∈ later, isConnect taken.2 = false) ∧ Meets (Deliverable [0x2f, 0x77, 0x2f]) later ∧
    Meets Program.WritesKept (viewed program programLabel later) ∧
    Meets (Program.Untouched (text "/w/a")) (viewed program programLabel later) ∧
    observed (reportedAt [0x2f, 0x77, 0x2f]) later = []

instance (later : List (Deployment Bool × Label Bool)) (last : Deployment Bool) :
    Decidable (ExampleEnds later last) := inferInstanceAs (Decidable (_ ∧ _))

theorem exampleScan_ends : ∃ later last,
    Run exampleSystem (later ++ (exampleInfected [closedFile], .fsEvent exampleKernel exampleStack 8) ::
      [(exampleInfected [], .fileChanged closedFile), (exampleUnconnected, .connect 7)]) last ∧
      ExampleEnds later last := by
  have reached : ((exampleSystem.step (exampleInfected [closedFile]) (.fsEvent exampleKernel exampleStack 8)).bind
      fun after => follow exampleSystem exampleScan ([], after)).any
        (fun reached => decide (ExampleEnds reached.1 reached.2)) = true := by
    decide +kernel
  obtain ⟨⟨later, last⟩, found, ends⟩ := (Option.any_eq_true _ _).mp reached
  obtain ⟨after, stepped, followed⟩ := Option.bind_eq_some_iff.mp found
  have run := exampleInfected_run.next stepped
  have placed := follow_prior [(exampleInfected [closedFile], .fsEvent exampleKernel exampleStack 8),
    (exampleInfected [], .fileChanged closedFile), (exampleUnconnected, .connect 7)] followed
  rw [List.nil_append] at placed
  exact ⟨later, last, run.follow exampleScan placed, of_decide_eq_true ends⟩

theorem exampleScan_connected : ∃ later last,
    Connected ⟨1, true, []⟩ Session.exampleClamd (fun _ => none) [0x2f, 0x77, 0x2f] 7 exampleUnconnected
      (later ++ (exampleInfected [closedFile], .fsEvent exampleKernel exampleStack 8) ::
        [(exampleInfected [], .fileChanged closedFile)]) [] last ∧
      Drained 7 last ∧
      NewestWrite exampleKernel [0x2f, 0x77, 0x2f] (exampleInfected [closedFile]) later
        ⟨[0x2f, 0x77, 0x2f, 0x61], "close_for_write"⟩ ∧
      Meets (Program.Untouched (text "/w/a")) (viewed program programLabel later) := by
  obtain ⟨later, last, run, state, once, deliverable, kept, untouched, silent⟩ := exampleScan_ends
  obtain ⟨socket, queue, sends, inbox, waiting, deferred, empty, tasks⟩ := state
  refine ⟨later, last, ⟨by rwa [List.append_assoc], ⟨[], socket⟩, ?_, ?_, ?_⟩,
    ⟨queue, sends, by rw [unread, socket]; rfl, inbox, waiting, deferred, empty, ?_⟩,
    ⟨⟨[], [], by decide +kernel, by simp [silent]⟩, by decide, by decide⟩, untouched⟩
  · intro taken member
    rcases List.mem_append.mp member with new | old
    · exact once taken new
    · simp only [List.mem_cons, List.not_mem_nil, or_false] at old
      rcases old with rfl | rfl <;> rfl
  · intro taken member
    rw [List.append_assoc] at member
    rcases List.mem_append.mp member with new | old
    · exact deliverable taken new
    · simp only [List.cons_append, List.nil_append, List.mem_cons, List.not_mem_nil, or_false] at old
      rcases old with rfl | rfl | rfl
      · decide +kernel
      · trivial
      · trivial
  · rw [List.append_assoc, viewed_append]
    intro taken member
    exact kept taken ((List.mem_append.mp member).resolve_right List.not_mem_nil)
  · intro number member
    simp [tasks] at member

theorem reported_scanned_closedFile : ∃ (last : Deployment Bool) (number : Nat) (call : Call Bool) (outcome : Outcome),
    last.program.session.calls[number]? = some call ∧ call.path = text "/w/a" ∧
      call.phase = .finished outcome ∧ last.program.loop.HasRecord outcome := by
  obtain ⟨later, last, connected, drained, newest, _⟩ := exampleScan_connected
  obtain ⟨number, call, outcome, _, scanned⟩ := reported_scanned connected drained newest
  exact ⟨last, number, call, outcome, scanned⟩

theorem reported_verdict_closedFile : ∃ (last : Deployment Bool) (number : Nat) (call : Call Bool) (outcome : Outcome),
    last.program.session.calls[number]? = some call ∧ call.path = text "/w/a" ∧
      call.phase = .finished outcome ∧ last.program.loop.HasRecord outcome ∧
      SameVerdict outcome (freshScan Session.exampleClamd last.program.session.disk (text "/w/a")) := by
  obtain ⟨later, last, connected, drained, newest, untouched⟩ := exampleScan_connected
  have settled : (exampleInfected [closedFile]).program.session.Settled Session.exampleClamd (text "/w/a")
      Session.infected 0 := by
    refine ⟨rfl, ?_, ?_⟩
    · intro path row entry stored
      cases stored
    · intro number call stored
      cases stored
  obtain ⟨number, call, outcome, scanned⟩ := reported_verdict connected drained newest settled untouched
  exact ⟨last, number, call, outcome, scanned⟩

end ClamavDbscan.Deployment
