import ClamavDbscan.Construction.Protocol.Deployment
import ClamavDbscan.Library.Simulation
import ClamavDbscan.Proof.Watcher.Delivery
import ClamavDbscan.Proof.Watcher.Document
import ClamavDbscan.Proof.Watcher.QueueProgress

/-
This file proves what the steps of a deployment do, and that its parts run on their own.
-/

namespace ClamavDbscan

open Fanotify Watcher Transition

namespace Watcher

variable {δ : Type} {loop last : LoopState δ} {past : List (LoopState δ × LoopState.Label δ)}

open ClientTable LoopState

/-- A traversal that ends well has found every client free. -/
theorem free_of_prepare {buffer : Nat} {slots : List Int} (loop : LoopState δ)
    (distinct : (occupied slots).Nodup)
    (running : (prepare buffer (occupied slots).length slots loop).control = .running) :
    ∀ fd ∈ occupied slots, loop.watched fd = false := by
  induction slots generalizing loop with
  | nil => simp [occupied]
  | cons slot others ih =>
      by_cases empty : slot = -1
      · subst empty
        rw [prepare_free] at running
        exact ih loop distinct running
      · rw [occupied_cons empty] at distinct running ⊢
        rw [List.length_cons, prepare, if_neg empty] at running
        cases watched : loop.watched slot with
        | true =>
            rw [watched] at running
            cases running
        | false =>
            rw [watched, if_neg Bool.false_ne_true] at running
            have rest := ih _ (List.nodup_cons.mp distinct).2 running
            intro fd member
            rcases List.mem_cons.mp member with rfl | later
            · exact watched
            · have free := rest fd later
              simp only [LoopState.watched, List.any_append, Bool.or_eq_false_iff] at free
              exact free.1

/-- While the watcher runs, every earlier broadcast has waited for the sends before it. -/
theorem settled_of_running (run : Run LoopState.system past last) (running : last.control = .running) :
    SendsSettled (past.map Prod.snd) := by
  induction run with
  | start => trivial
  | @next past loop after label earlier taken ih =>
      have settled := ih (step_running taken)
      have tracks := (harmless_of_settled earlier settled).1
      refine ⟨tracks.settled ?_, settled⟩
      rintro rfl waiting
      obtain ⟨_, rfl⟩ := step_idle taken
      cases queue : loop.jsonQueue with
      | nil => exact absurd queue waiting
      | cons json others =>
          simp only [sendJsons, queue, tracks.isSet.counted] at running
          split at running
          · rename_i prepared
            exact free_of_prepare { loop with jsonQueue := others, buffers := loop.buffers ++ [⟨json, 1⟩] }
              tracks.isSet.distinct prepared
          · contradiction

/-- These events are reported for a batch that one read returns. -/
def reports (kernel : Kernel) (comparePath : Bytes) (events : List KernelEvent) : List JsonEvent :=
  (processEvents kernel comparePath 0 events).filterMap Processed.event

/-- The operation of a reported event is one of the five names. -/
theorem processEvents_named {kernel : Kernel} {comparePath : Bytes} {call : Nat} {events : List KernelEvent}
    {event : JsonEvent} (member : .reported event ∈ processEvents kernel comparePath call events) :
    ∃ operation, event.operation = operationTypeToString operation := by
  induction events generalizing call with
  | nil => contradiction
  | cons first others ih =>
      rcases List.mem_cons.mp member with same | later
      · unfold processEvent processPath at same
        split at same
        · contradiction
        · split at same
          · obtain rfl := Processed.reported.inj same
            exact ⟨_, rfl⟩
          · contradiction
      · exact ih later

theorem reports_named {kernel : Kernel} {comparePath : Bytes} {events : List KernelEvent} {event : JsonEvent}
    (member : event ∈ reports kernel comparePath events) :
    ∃ operation, event.operation = operationTypeToString operation := by
  obtain ⟨processed, listed, same⟩ := List.mem_filterMap.mp member
  cases processed with
  | reported other =>
      obtain rfl := Option.some.inj same
      exact processEvents_named listed
  | unresolved | skipped => cases same

end Watcher

/-- A message is read as a whole. -/
theorem ScannerSocket.readUnixDomainSocket_message (fd : Int) (message : Bytes) (messages : List Bytes)
    (closed : Bool) : readUnixDomainSocket ⟨fd, message :: messages, closed⟩ =
      some (message, ⟨fd, messages, closed⟩) := by
  have whole : message.take (message :: messages).flatten.length = message :=
    List.take_of_length_le (by simp)
  rw [readUnixDomainSocket, if_neg (fun both => List.cons_ne_nil _ _ both.1), recv]
  exact congrArg (fun data => some (data, (⟨fd, messages, closed⟩ : ScannerSocket))) whole

namespace Deployment

variable {κ : Type} {config : ProgramConfig} {clamd : Clamd κ} {files : Files} {comparePath : Bytes}
  {state after last : Deployment κ} {past : List (Deployment κ × Label κ)}

/-- These events are in the part of the queue that one read returns. -/
def batch (kernelQueue : List KernelEvent) : List KernelEvent := (takeFitting bufferSize kernelQueue).1

/-- The parser processes the batch and finishes. -/
theorem parse_eq {kernel : Kernel} {stack : Stack} {turns : Nat} {kernelQueue : List KernelEvent}
    {outcome : Watcher.Outcome} (parsed : parse kernel comparePath stack turns kernelQueue = some outcome) :
    outcome = .ok (.finished (processEvents kernel comparePath 0 (batch kernelQueue))) := by
  have gives : OnFsEvent kernel comparePath stack (readEvents bufferSize kernelQueue).1 outcome :=
    ⟨turns, parsed⟩
  have fits := (takeFitting_append bufferSize kernelQueue).2
  cases taken : takeFitting bufferSize kernelQueue with
  | mk events rest =>
      rw [taken] at fits
      rw [batch, taken]
      cases events with
      | nil =>
          simp only [readEvents, taken] at gives
          exact (onFsEvent_failed_iff kernel comparePath stack outcome).mp gives
      | cons event events =>
          simp only [readEvents, taken] at gives
          exact (onFsEvent_events_iff kernel comparePath stack fits outcome).mp gives

/-- The document of a batch holds its reports. -/
def fsBatch (kernel : Kernel) (comparePath : Bytes) (kernelQueue : List KernelEvent) :
    LoopState.FsBatch (List JsonEvent) :=
  if reports kernel comparePath (batch kernelQueue) = [] then .nothing
  else .document (reports kernel comparePath (batch kernelQueue))

/-- These are the steps of a deployment, with what they do. -/
inductive Taken (config : ProgramConfig) (clamd : Clamd κ) (comparePath : Bytes) (state : Deployment κ) :
    Label κ → Deployment κ → Prop
  | fileChanged (event : KernelEvent) :
      Taken config clamd comparePath state (.fileChanged event)
        { state with kernelQueue := state.kernelQueue ++ [event] }
  | fsEvent (kernel : Kernel) (stack : Stack) (turns : Nat) (watcher : LoopState (List JsonEvent))
      (alive : state.ended = none)
      (called : LoopState.step state.watcher (.fsEvent (fsBatch kernel comparePath state.kernelQueue)) =
        some watcher) :
      Taken config clamd comparePath state (.fsEvent kernel stack turns)
        { state with kernelQueue := (takeFitting bufferSize state.kernelQueue).2, watcher := watcher }
  | callback (label : LoopState.Label (List JsonEvent)) (watcher : LoopState (List JsonEvent))
      (alive : state.ended = none) (other : isFsEvent label = false)
      (called : LoopState.step state.watcher label = some watcher) :
      Taken config clamd comparePath state (.callback label)
        { state with
          watcher := watcher
          socket := state.socket.map (ScannerSocket.afterCallback state.watcher watcher label) }
  | exit (alive : state.ended = none) :
      Taken config clamd comparePath state .exit (state.hangUp .exited)
  | connect (fd : Int) (watcher : LoopState (List JsonEvent)) (alive : state.ended = none)
      (unconnected : state.socket = none) (unraised : state.raised = none)
      (idle : state.program.session.watch.inbox = []) (goesOn : state.program.session.watch.raised = none)
      (called : LoopState.step state.watcher (.connection (some fd)) = some watcher) :
      Taken config clamd comparePath state (.connect fd)
        { state with watcher := watcher, socket := some ⟨fd, [], false⟩ }
  | readEnd (socket : ScannerSocket) (connected : state.socket = some socket)
      (empty : socket.messages = [] ∧ socket.closed = true ∨ socket.messages.head? = some []) :
      Taken config clamd comparePath state .read { state with socket := none }
  | readMessage (fd : Int) (message : Bytes) (messages : List Bytes) (closed : Bool) (program : Program κ)
      (unraised : state.raised = none) (idle : state.program.session.watch.inbox = [])
      (connected : state.socket = some ⟨fd, message :: messages, closed⟩) (nonempty : message ≠ [])
      (received : Program.step config clamd state.program
        (.watch (.receive (ClamavDbscan.readMessage message).1)) = some program) :
      Taken config clamd comparePath state .read
        { state with
          socket := some ⟨fd, messages, closed⟩
          raised := (ClamavDbscan.readMessage message).2
          program := program }
  | scanner (label : Program.Label κ) (program : Program κ) (other : isReceive label = false)
      (stepped : Program.step config clamd state.program label = some program) :
      Taken config clamd comparePath state (.scanner label) { state with program := program }

theorem step_taken {label : Label κ} (stepped : step config clamd comparePath state label = some after) :
    Taken config clamd comparePath state label after := by
  cases label with
  | fileChanged event =>
      obtain rfl := Option.some.inj stepped
      exact .fileChanged event
  | fsEvent kernel stack turns =>
      obtain ⟨⟨alive, _⟩, moved⟩ := Option.ite_none_right_eq_some.mp stepped
      dsimp only at moved
      cases parsed : parse kernel comparePath stack turns state.kernelQueue with
      | none => simp [parsed] at moved
      | some outcome =>
          obtain rfl := parse_eq parsed
          simp only [parsed, batch_finished] at moved
          obtain ⟨watcher, called, rfl⟩ := Option.map_eq_some_iff.mp moved
          rw [readEvents_rest]
          exact .fsEvent kernel stack turns watcher alive called
  | callback label =>
      obtain ⟨⟨alive, other⟩, moved⟩ := Option.ite_none_right_eq_some.mp stepped
      obtain ⟨watcher, called, rfl⟩ := Option.map_eq_some_iff.mp moved
      exact .callback label watcher alive other called
  | exit =>
      obtain ⟨⟨alive, _⟩, same⟩ := Option.ite_none_right_eq_some.mp stepped
      obtain rfl := Option.some.inj same
      exact .exit alive
  | connect fd =>
      obtain ⟨⟨alive, unconnected, unraised, _, idle, goesOn⟩, moved⟩ := Option.ite_none_right_eq_some.mp stepped
      obtain ⟨watcher, called, rfl⟩ := Option.map_eq_some_iff.mp moved
      exact .connect fd watcher alive unconnected unraised idle goesOn called
  | read =>
      obtain ⟨⟨unraised, idle, _⟩, moved⟩ := Option.ite_none_right_eq_some.mp stepped
      obtain ⟨⟨data, rest⟩, received, handled⟩ := Option.bind_eq_some_iff.mp moved
      obtain ⟨⟨fd, messages, closed⟩, connected, read⟩ := Option.bind_eq_some_iff.mp received
      cases messages with
      | nil =>
          obtain ⟨hungUp, same⟩ := Option.ite_none_left_eq_some.mp read
          obtain ⟨rfl, rfl⟩ := Prod.mk.inj (Option.some.inj same)
          obtain rfl := Option.some.inj handled
          exact .readEnd _ connected (.inl ⟨rfl, by simpa using hungUp⟩)
      | cons message messages =>
          rw [ScannerSocket.readUnixDomainSocket_message] at read
          obtain ⟨rfl, rfl⟩ := Prod.mk.inj (Option.some.inj read)
          simp only [handleData] at handled
          split at handled
          · rename_i empty
            obtain rfl := Option.some.inj handled
            exact .readEnd _ connected (.inr (congrArg some empty))
          · rename_i nonempty
            obtain ⟨program, taken, rfl⟩ := Option.map_eq_some_iff.mp handled
            exact .readMessage fd message messages closed program unraised idle connected nonempty taken
  | scanner label =>
      obtain ⟨other, moved⟩ := Option.ite_none_left_eq_some.mp stepped
      obtain ⟨program, taken, rfl⟩ := Option.map_eq_some_iff.mp moved
      exact .scanner label program (by simpa using other) taken

/-- The loop of the watcher sees the steps that call it back. -/
def watcherLabel (comparePath : Bytes) (state : Deployment κ) :
    Label κ → Option (LoopState.Label (List JsonEvent))
  | .fsEvent kernel _ _ => some (.fsEvent (fsBatch kernel comparePath state.kernelQueue))
  | .callback label => some label
  | .connect fd => some (.connection (some fd))
  | _ => none

/-- The message that is read next is not empty. -/
def nextMessage (state : Deployment κ) : Option Bytes :=
  (state.socket.bind fun socket => socket.messages.head?).filter (· ≠ [])

/-- The program sees its own steps and the messages that are read. -/
def programLabel (state : Deployment κ) : Label κ → Option (Program.Label κ)
  | .read => state.nextMessage.map fun message => .watch (.receive (ClamavDbscan.readMessage message).1)
  | .scanner label => some label
  | _ => none

theorem watcher_run (run : Run (system config clamd files comparePath) past last) :
    Run LoopState.system (viewed watcher (watcherLabel comparePath) past) last.watcher := by
  refine run.viewed watcher (watcherLabel comparePath) ?_ ?_
  · rintro state ⟨_, begins, _⟩
    exact begins
  · intro state label after stepped
    cases step_taken stepped with
    | fsEvent kernel stack turns watcher alive called => exact called
    | callback label watcher alive other called => exact called
    | connect fd watcher alive unconnected unraised idle goesOn called => exact called
    | fileChanged | exit | readEnd | readMessage | scanner => rfl

/-- A step of the deployment is a step of the program, or the program stays as it is. -/
theorem program_step {label : Label κ} (stepped : step config clamd comparePath state label = some after) :
    match programLabel state label with
    | none => after.program = state.program
    | some seen => Program.step config clamd state.program seen = some after.program := by
  cases step_taken stepped with
  | readEnd socket connected empty =>
      have silent : state.programLabel (.read : Label κ) = none := by
        rcases empty with ⟨none, _⟩ | first
        · simp [programLabel, nextMessage, connected, none]
        · simp [programLabel, nextMessage, connected, first]
      rw [silent]
  | readMessage fd message messages closed program unraised idle connected nonempty received =>
      have next : state.nextMessage = some message := by simp [nextMessage, connected, nonempty]
      simp only [programLabel, next]
      exact received
  | scanner label program other taken => exact taken
  | fsEvent | callback | connect | fileChanged | exit => rfl

theorem program_run (run : Run (system config clamd files comparePath) past last) :
    Run (Program.system config clamd files) (viewed program programLabel past) last.program := by
  refine run.viewed program programLabel ?_ ?_
  · rintro state ⟨_, _, _, _, _, begins⟩
    exact begins
  · intro state label after stepped
    have moved := program_step stepped
    revert moved
    cases programLabel state label <;> exact id

end Deployment

end ClamavDbscan
