import ClamavDbscan.Proof.Main.WatchedFiles
import ClamavDbscan.Proof.Protocol.DeploymentSteps
import ClamavDbscan.Proof.Protocol.Messages

/-
This file proves that a deployment conveys every file change from the kernel to the scanner, in order.
-/

namespace ClamavDbscan

open Fanotify Watcher Transition

namespace OnDemand

variable {state after : OnDemand} {event : FileEvent} {others : List FileEvent}

/-- The task of the watcher goes on after an event that does not raise. -/
theorem handleEvent_raised (quiet : ¬ event.Raises) : (state.handleEvent event).raised = state.raised := by
  have handled := handleEvent_handled state event
  generalize state.handleEvent event = after at handled ⊢
  cases handled with
  | raise removal outside surrogate => exact absurd ⟨removal, outside, surrogate⟩ quiet
  | write | remove | skip => rfl

/-- The first event of the inbox is taken when it is handled. -/
theorem mem_takenEvents (inbox : state.inbox = event :: others) : event ∈ takenEvents state .handle := by
  simp only [takenEvents, inbox]
  split <;> exact List.mem_cons_self

/-- The watcher receives these events. -/
def receivedEvents : Label → List FileEvent
  | .receive events => events
  | _ => []

/-- The events of a message wait until they are taken, and the task goes on unless one of them raises. -/
theorem step_inbox {label : Label} (stepped : step state label = some after) :
    state.inbox ++ receivedEvents label = takenEvents state label ++ after.inbox ∧
      ((∀ event ∈ takenEvents state label, ¬ event.Raises) → after.raised = state.raised) := by
  cases step_taken stepped with
  | receive events idle => exact ⟨by simp [idle, receivedEvents, takenEvents], fun _ => rfl⟩
  | handle event others inbox =>
      exact ⟨(List.append_nil _).trans (handleEvent_taken inbox).1,
        fun quiet => handleEvent_raised (quiet event (mem_takenEvents inbox))⟩
  | tick | fire | resume | check | reap | take => exact ⟨List.append_nil _, fun _ => rfl⟩

end OnDemand

namespace Program

variable {κ : Type} {config : ProgramConfig} {clamd : Clamd κ} {files : Files}
  {program last after : Program κ} {past : List (Program κ × Label κ)} {label : Label κ}

/-- The task of the watcher receives these events. -/
def receivedAt : Program κ × Label κ → Option (List FileEvent)
  | (_, .watch (.receive events)) => some events
  | _ => none

/-- These events leave the inbox, handled or not. -/
def taken : Program κ × Label κ → Option (List FileEvent)
  | (program, label) => some (takenAt program label)

structure InboxStep (program : Program κ) (label : Label κ) (after : Program κ) : Prop where
  inbox : program.session.watch.inbox ++ (receivedAt (program, label)).getD [] =
    takenAt program label ++ after.session.watch.inbox
  raised : (∀ event ∈ takenAt program label, ¬ event.Raises) →
    after.session.watch.raised = program.session.watch.raised

theorem inbox_step (stepped : step config clamd program label = some after) :
    InboxStep program label after := by
  cases step_taken stepped with
  | watch inner session watching other moved =>
      obtain ⟨watch, taken, same⟩ := Option.map_eq_some_iff.mp moved
      have same : session.watch = watch := by rw [← same, Session.noteRemoval_watch]
      subst same
      obtain ⟨inbox, raised⟩ := OnDemand.step_inbox taken
      refine ⟨?_, raised⟩
      cases inner <;> exact inbox
  | goOn number now session moved =>
      obtain ⟨_, _, _, _, _, _, _, _, rfl⟩ := step_advance moved
      exact ⟨List.append_nil _, fun _ => rfl⟩
  | finish number now session outcome loop moved =>
      obtain ⟨_, _, _, _, _, _, _, _, rfl⟩ := step_advance moved
      exact ⟨List.append_nil _, fun _ => rfl⟩
  | read number session moved =>
      obtain ⟨_, _, moved⟩ := Option.bind_eq_some_iff.mp moved
      obtain ⟨_, _, rfl⟩ := Option.map_eq_some_iff.mp moved
      exact ⟨List.append_nil _, fun _ => rfl⟩
  | change path entry session moved =>
      obtain rfl := Option.some.inj moved
      exact ⟨List.append_nil _, fun _ => rfl⟩
  | gather | scanFiles | stepReady | resume => exact ⟨List.append_nil _, fun _ => rfl⟩

/-- All events that have been received are taken, or they wait. -/
theorem received_eq_taken (run : Run (system config clamd files) past last) :
    (observed receivedAt past).flatten = (observed taken past).flatten ++ last.session.watch.inbox := by
  induction run with
  | start begins => exact begins.2.1.1.symm
  | @next past state after label _ stepped ih =>
      have moved := (inbox_step stepped).inbox
      rw [observed_cons, observed_cons, List.flatten_append, List.flatten_append, ih, List.append_assoc,
        List.append_assoc]
      change _ = _ ++ ([takenAt state label].flatten ++ _)
      rw [List.flatten_singleton, ← moved]
      cases receivedAt (state, label) <;> simp

/-- Events that do not raise are handled when they are taken. -/
theorem takenAt_quiet (quiet : ∀ event ∈ takenAt program label, ¬ event.Raises) :
    takenAt program label = (handledAt (program, label)).toList := by
  cases label with
  | watch inner =>
      cases inner with
      | handle =>
          cases inbox : program.session.watch.inbox with
          | nil => simp [takenAt, OnDemand.takenEvents, handledAt, OnDemand.handledEvent, inbox]
          | cons event others =>
              have handled : handledAt (program, .watch .handle) = some event := by
                simp [handledAt, OnDemand.handledEvent, inbox]
              rw [takenAt_handled handled (quiet event (OnDemand.mem_takenEvents inbox)), handled]
              rfl
      | tick | receive | fire | resume | check | reap | take => rfl
  | gather | scanFiles | change | advance | read | stepReady | resume => rfl

/-- What is taken is handled while no event that is taken raises. -/
theorem taken_eq_handled (quiet : ∀ event ∈ (observed taken past).flatten, ¬ event.Raises) :
    (observed taken past).flatten = observed handledAt past := by
  induction past with
  | nil => rfl
  | cons step past ih =>
      obtain ⟨state, label⟩ := step
      rw [observed_cons, List.flatten_append] at quiet ⊢
      change ∀ event ∈ _ ++ [takenAt state label].flatten, _ at quiet
      change _ ++ [takenAt state label].flatten = _
      rw [List.flatten_singleton] at quiet ⊢
      rw [observed_cons, ih fun event member => quiet event (List.mem_append_left _ member),
        takenAt_quiet fun event member => quiet event (List.mem_append_right _ member)]

end Program

namespace Deployment

variable {κ : Type} {config : ProgramConfig} {clamd : Clamd κ} {files : Files} {comparePath : Bytes}
  {state after before last : Deployment κ} {label : Label κ} {fd : Int}
  {past later earlier : List (Deployment κ × Label κ)}

/-- The kernel queues this event. -/
def changedAt : Deployment κ × Label κ → Option KernelEvent
  | (_, .fileChanged event) => some event
  | _ => none

/-- The watcher reads these events in one call. -/
def readAt : Deployment κ × Label κ → Option (List KernelEvent)
  | (state, .fsEvent _ _ _) => some (batch state.kernelQueue)
  | _ => none

/-- The watcher reports these events in one call. -/
def reportedAt (comparePath : Bytes) : Deployment κ × Label κ → Option (List JsonEvent)
  | (state, .fsEvent kernel _ _) => some (reports kernel comparePath (batch state.kernelQueue))
  | _ => none

/-- The scanner reads this message. -/
def messageAt : Deployment κ × Label κ → Option Bytes
  | (state, .read) => state.nextMessage
  | _ => none

/-- The scanner handles this event. -/
def handledAt (taken : Deployment κ × Label κ) : Option FileEvent :=
  (programLabel taken.1 taken.2).bind fun label => Program.handledAt (taken.1.program, label)

/-- The watcher sends this document to its client. -/
def sentAt (comparePath : Bytes) (fd : Int) (taken : Deployment κ × Label κ) : Option (List JsonEvent) :=
  (watcherLabel comparePath taken.1 taken.2).bind fun label => LoopState.sentAt fd (taken.1.watcher, label)

/-- The kernel's events are read in their order, or they are still queued. -/
theorem changed_eq_read (run : Run (system config clamd files comparePath) past last) :
    observed changedAt past = (observed readAt past).flatten ++ last.kernelQueue := by
  induction run with
  | start begins => exact begins.1.symm
  | @next past state after label _ stepped ih =>
      rw [observed_cons, observed_cons, List.flatten_append, ih]
      cases step_taken stepped with
      | fileChanged event => simp [changedAt, readAt]
      | fsEvent kernel stack turns watcher =>
          simp [changedAt, readAt, batch, (takeFitting_append bufferSize state.kernelQueue).1]
      | exit => simp [changedAt, readAt, hangUp]
      | callback | connect | readEnd | readMessage | scanner => simp [changedAt, readAt]

/-- The documents that are queued hold all reports. -/
theorem pushed_eq_reported (run : Run (system config clamd files comparePath) past last) :
    (observed LoopState.pushedAt (viewed watcher (watcherLabel comparePath) past)).flatten =
      (observed (reportedAt comparePath) past).flatten := by
  rw [observed_viewed]
  induction run with
  | start => rfl
  | @next past state after label _ stepped ih =>
      rw [observed_cons, observed_cons, List.flatten_append, List.flatten_append, ih]
      congr 1
      cases step_taken stepped with
      | fsEvent kernel stack turns =>
          simp only [watcherLabel, Option.bind_some, reportedAt, fsBatch]
          split
          · rename_i none
            simp [LoopState.pushedAt, none]
          · rfl
      | callback label watcher alive other =>
          cases label with
          | fsEvent => contradiction
          | connection | idle | writeable | sigint => rfl
      | fileChanged | exit | connect | readEnd | readMessage | scanner => rfl

def isConnect : Label κ → Bool
  | .connect _ => true
  | _ => false

/-- The scanner is connected, and the watcher has not closed its end. -/
def Open (fd : Int) (state : Deployment κ) : Prop := ∃ messages, state.socket = some ⟨fd, messages, false⟩

/-- These messages have been sent to the scanner, but it has not read them. -/
def unread (state : Deployment κ) : List Bytes := (state.socket.map ScannerSocket.messages).getD []

/-- A socket that is open after a callback was open before, and the loop runs on. -/
theorem afterCallback_open {loop next : LoopState (List JsonEvent)}
    {label : LoopState.Label (List JsonEvent)} {socket : ScannerSocket} {messages : List Bytes}
    (same : loop.sending fd = loop.outstanding fd)
    (called : socket.afterCallback loop next label = ⟨fd, messages, false⟩) :
    socket.fd = fd ∧ socket.closed = false ∧ next.control = .running ∧ label ≠ .writeable fd false ∧
      messages = socket.messages ++ ((LoopState.sentAt fd (loop, label)).map message).toList := by
  unfold ScannerSocket.afterCallback at called
  dsimp only at called
  split at called
  · rename_i running
    cases label with
    | writeable client sent =>
        dsimp only at called
        split at called
        · rename_i here
          cases sent with
          | true =>
              obtain ⟨rfl, isOpen⟩ := here
              obtain ⟨rfl, rfl, _⟩ := ScannerSocket.mk.inj called
              exact ⟨rfl, isOpen, running, by simp, by simp [LoopState.sentAt, same]⟩
          | false => cases congrArg ScannerSocket.closed called
        · rename_i elsewhere
          subst called
          have other : client ≠ fd := by simpa using elsewhere
          exact ⟨rfl, rfl, running, by simp [other], by simp [LoopState.sentAt, other]⟩
    | fsEvent | connection | idle | sigint =>
        subst called
        exact ⟨rfl, rfl, running, by simp, by simp [LoopState.sentAt]⟩
  · cases congrArg ScannerSocket.closed called

/-- A step of an open connection sends a message, reads one, or leaves the messages as they are. -/
structure Carries (comparePath : Bytes) (fd : Int) (state : Deployment κ) (label : Label κ)
    (after : Deployment κ) : Prop where
  opened : Open fd state
  unread : state.unread ++ ((sentAt comparePath fd (state, label)).map message).toList =
    (messageAt (state, label)).toList ++ after.unread
  unfailed : watcherLabel comparePath state label ≠ some (.writeable fd false)

/-- The state of a running loop sends what is outstanding. -/
theorem sending_eq (run : Run (system config clamd files comparePath) past last)
    (running : last.watcher.control = .running) (fd : Int) :
    last.watcher.sending fd = last.watcher.outstanding fd := by
  have loopRun := watcher_run run
  have orderly := orderly_of_settled loopRun (settled_of_running loopRun running) running
  exact (orderly.referenced.outstanding_eq fd).symm

theorem carries_step (run : Run (system config clamd files comparePath) past state)
    (stepped : step config clamd comparePath state label = some after)
    (opened : Open fd after) (other : isConnect label = false) : Carries comparePath fd state label after := by
  obtain ⟨messages, connected⟩ := opened
  cases step_taken stepped with
  | callback label watcher alive _ called =>
      obtain ⟨socket, before, same⟩ := Option.map_eq_some_iff.mp connected
      have sending := sending_eq run (LoopState.step_running called) fd
      obtain ⟨rfl, isOpen, _, unfailed, rfl⟩ := afterCallback_open sending same
      refine ⟨⟨socket.messages, ?_⟩, ?_, ?_⟩
      · rw [before, ← isOpen]
      · simp [unread, before, same, sentAt, watcherLabel, messageAt]
      · simpa [watcherLabel] using unfailed
  | exit alive =>
      obtain ⟨socket, before, same⟩ := Option.map_eq_some_iff.mp connected
      cases congrArg ScannerSocket.closed same
  | connect => contradiction
  | readEnd => cases connected
  | readMessage fd data others closed program unraised idle before nonempty =>
      obtain ⟨rfl, rfl, rfl⟩ := ScannerSocket.mk.inj (Option.some.inj connected)
      refine ⟨⟨_, before⟩, ?_, by simp [watcherLabel]⟩
      have next : state.nextMessage = some data := by simp [nextMessage, before, nonempty]
      simp [unread, before, sentAt, watcherLabel, messageAt, next]
  | fileChanged event =>
      exact ⟨⟨messages, connected⟩, by simp [unread, sentAt, watcherLabel, messageAt], by simp [watcherLabel]⟩
  | fsEvent kernel stack turns watcher =>
      refine ⟨⟨messages, connected⟩, ?_, by simp [watcherLabel]⟩
      simp [unread, sentAt, watcherLabel, messageAt, LoopState.sentAt]
  | scanner label =>
      exact ⟨⟨messages, connected⟩, by simp [unread, sentAt, watcherLabel, messageAt], by simp [watcherLabel]⟩

/-- A connection that is open, and was not made since, was open before. -/
theorem open_before (run : Run (system config clamd files comparePath) (later ++ past) last) (opened : Open fd last)
    (once : ∀ taken ∈ later, isConnect taken.2 = false) :
    ∃ state, Run (system config clamd files comparePath) past state ∧ Open fd state := by
  induction later generalizing last with
  | nil => exact ⟨last, run, opened⟩
  | cons taken later ih =>
      obtain ⟨state, label⟩ := taken
      obtain ⟨before, stepped⟩ := run.uncons
      have carries := carries_step before stepped opened (once _ List.mem_cons_self)
      exact ih before carries.opened fun taken member => once taken (List.mem_cons_of_mem _ member)

/-- What has been sent since the connection was made has been read, or it waits in the socket. -/
theorem sent_eq_read (run : Run (system config clamd files comparePath) (later ++ (before, .connect fd) :: earlier) last)
    (opened : Open fd last) (once : ∀ taken ∈ later, isConnect taken.2 = false) :
    (observed (sentAt comparePath fd) later).map message = observed messageAt later ++ last.unread ∧
      ∀ taken ∈ viewed watcher (watcherLabel comparePath) later, taken.2 ≠ .writeable fd false := by
  induction later generalizing last with
  | nil =>
      refine ⟨?_, by simp [viewed]⟩
      have stepped : step config clamd comparePath before (.connect fd) = some last := run.uncons.2
      cases step_taken stepped with
      | connect fd watcher => rfl
  | cons taken later ih =>
      obtain ⟨state, label⟩ := taken
      obtain ⟨before, stepped⟩ := run.uncons
      have carries := carries_step before stepped opened (once _ List.mem_cons_self)
      obtain ⟨messages, unfailed⟩ := ih before carries.opened
        fun taken member => once taken (List.mem_cons_of_mem _ member)
      constructor
      · have moved := carries.unread
        rw [observed_cons, observed_cons, List.map_append, messages, List.append_assoc, List.append_assoc, ← moved]
        cases sentAt comparePath fd (state, label) <;> simp
      · intro seen member
        cases sees : watcherLabel comparePath state label with
        | none => exact unfailed seen (by simpa [viewed, sees] using member)
        | some seenLabel =>
            rw [viewed_cons_some watcher (watcherLabel comparePath) later sees] at member
            rcases List.mem_cons.mp member with rfl | member
            · exact fun same => carries.unfailed (sees.trans (congrArg some same))
            · exact unfailed seen member

/-- The task goes on while the messages that it reads are well formed. -/
theorem unraised_run (run : Run (system config clamd files comparePath) (later ++ (before, .connect fd) :: earlier) last)
    (readable : ∀ data ∈ observed messageAt later, (ClamavDbscan.readMessage data).2 = none) :
    last.raised = none := by
  induction later generalizing last with
  | nil =>
      have stepped : step config clamd comparePath before (.connect fd) = some last := run.uncons.2
      cases step_taken stepped with
      | connect fd watcher alive unconnected unraised => exact unraised
  | cons taken later ih =>
      obtain ⟨state, label⟩ := taken
      obtain ⟨earlier, stepped⟩ := run.uncons
      rw [observed_cons] at readable
      have unraised := ih earlier fun data member => readable data (List.mem_append_left _ member)
      cases step_taken stepped with
      | readMessage fd data others closed program _ idle before nonempty =>
          have next : state.nextMessage = some data := by simp [nextMessage, before, nonempty]
          exact readable data (List.mem_append_right _ (by simp [messageAt, next]))
      | fileChanged | fsEvent | callback | exit | connect | readEnd | scanner => exact unraised

/-- The scanner decodes a reported event as this one. -/
def fileEvent (event : JsonEvent) : FileEvent := ⟨fsdecode event.path, .ofText (text event.operation)⟩

/-- A valid path can be bound to a statement. -/
theorem fileEvent_quiet {event : JsonEvent} (valid : Utf8.Valid event.path) : ¬ (fileEvent event).Raises := by
  rintro ⟨_, _, surrogate⟩
  rw [fileEvent, ← (repair_eq_fsdecode_iff event.path).mpr valid, List.any_map] at surrogate
  obtain ⟨char, _, found⟩ := List.any_eq_true.mp surrogate
  exact Bool.false_ne_true ((isSurrogate_codePoint char).symm.trans found)

/-- Every path that is reported is valid UTF-8, and it has no zero byte. -/
def Deliverable (comparePath : Bytes) (state : Deployment κ) : Label κ → Prop
  | .fsEvent kernel _ _ => ∀ event ∈ reports kernel comparePath (batch state.kernelQueue),
      0 ∉ event.path ∧ Utf8.Valid event.path
  | _ => True

instance (comparePath : Bytes) (state : Deployment κ) :
    (label : Label κ) → Decidable (Deliverable comparePath state label)
  | .fsEvent kernel _ _ => inferInstanceAs
      (Decidable (∀ event ∈ reports kernel comparePath (batch state.kernelQueue), 0 ∉ event.path ∧ Utf8.Valid event.path))
  | .fileChanged _ | .callback _ | .exit | .connect _ | .read | .scanner _ => .isTrue trivial

theorem readMessage_message {events : List JsonEvent} (valid : ∀ event ∈ events, 0 ∉ event.path ∧ Utf8.Valid event.path)
    (named : ∀ event ∈ events, ∃ operation, event.operation = operationTypeToString operation) :
    ClamavDbscan.readMessage (message events) = (events.map fileEvent, none) := by
  have ascii (event : JsonEvent) (member : event ∈ events) : 0 ∉ ascii event.operation := by
    obtain ⟨operation, same⟩ := named event member
    rw [same]
    cases operation <;> decide
  have delivered := (message_delivered_iff (fun event member => (valid event member).1) ascii).mpr
    fun event member => (valid event member).2
  rw [Delivered, List.map_map] at delivered
  exact delivered

/-- A document that has been queued can be read. -/
theorem readMessage_pushed (run : Run (system config clamd files comparePath) past last)
    (deliverable : Meets (Deliverable comparePath) past) {events : List JsonEvent}
    (pushed : events ∈ observed LoopState.pushedAt (viewed watcher (watcherLabel comparePath) past)) :
    (∀ event ∈ events, Utf8.Valid event.path) ∧
      ClamavDbscan.readMessage (message events) = (events.map fileEvent, none) := by
  rw [observed_viewed, observed, List.mem_reverse] at pushed
  obtain ⟨⟨state, label⟩, member, seen⟩ := List.mem_filterMap.mp pushed
  obtain ⟨later, earlier, rfl⟩ := List.append_of_mem member
  obtain ⟨after, _, stepped⟩ := run.split
  have allowed := deliverable _ member
  obtain ⟨inner, sees, document⟩ := Option.bind_eq_some_iff.mp seen
  cases step_taken stepped with
  | fsEvent kernel stack turns =>
      obtain rfl := Option.some.inj sees
      dsimp only [fsBatch] at document
      split at document
      · cases document
      · obtain rfl := Option.some.inj document
        exact ⟨fun event member => (allowed event member).2,
          readMessage_message allowed fun event member => reports_named member⟩
  | callback label watcher alive other =>
      obtain rfl := Option.some.inj sees
      cases label with
      | fsEvent => contradiction
      | connection | idle | writeable | sigint => cases document
  | connect =>
      obtain rfl := Option.some.inj sees
      cases document
  | fileChanged | exit | readEnd | readMessage | scanner => cases sees

/-- An open connection has a running watcher at its other end. -/
theorem open_alive (run : Run (system config clamd files comparePath) past last) (opened : Open fd last) :
    last.ended = none ∧ last.watcher.control = .running := by
  induction run with
  | start begins =>
      obtain ⟨messages, connected⟩ := opened
      obtain ⟨_, _, _, unconnected, _⟩ := begins
      rw [unconnected] at connected
      contradiction
  | @next past state after label earlier stepped ih =>
      have before (other : isConnect label = false) := ih (carries_step earlier stepped opened other).opened
      cases step_taken stepped with
      | connect fd watcher alive _ _ _ _ called =>
          have running := LoopState.step_running called
          obtain ⟨_, _, rfl⟩ := LoopState.step_connection called
          exact ⟨alive, running⟩
      | callback label watcher alive _ called =>
          obtain ⟨messages, connected⟩ := opened
          obtain ⟨socket, _, same⟩ := Option.map_eq_some_iff.mp connected
          exact ⟨alive, (afterCallback_open (sending_eq earlier (before rfl).2 fd) same).2.2.1⟩
      | fsEvent kernel stack turns watcher alive called =>
          obtain rfl := LoopState.step_fsEvent called
          refine ⟨alive, ?_⟩
          cases fsBatch kernel comparePath state.kernelQueue <;> exact (before rfl).2
      | exit alive =>
          obtain ⟨messages, connected⟩ := opened
          obtain ⟨socket, _, same⟩ := Option.map_eq_some_iff.mp connected
          cases congrArg ScannerSocket.closed same
      | fileChanged | readEnd | readMessage | scanner => exact before rfl

/-- The documents that were queued at the connection, and those of later batches, are popped in order. -/
theorem popped_since {later earlier : List (LoopState (List JsonEvent) × LoopState.Label (List JsonEvent))}
    {before last : LoopState (List JsonEvent)}
    (run : Run LoopState.system (later ++ (before, .connection (some fd)) :: earlier) last)
    (settled : SendsSettled ((later ++ (before, .connection (some fd)) :: earlier).map Prod.snd)) :
    before.jsonQueue ++ observed LoopState.pushedAt later =
      observed LoopState.poppedAt later ++ last.jsonQueue := by
  obtain ⟨_, prior, _⟩ := run.split
  have first := pushed_eq_popped prior settled.tail
  have whole := pushed_eq_popped run settled
  rw [observed_append, observed_append, observed_cons, observed_cons, first] at whole
  simpa [LoopState.pushedAt, LoopState.poppedAt] using whole

/-- What is reported since the connection was made is queued since. -/
theorem pushed_since (run : Run (system config clamd files comparePath) (later ++ (before, .connect fd) :: earlier) last) :
    (observed LoopState.pushedAt (viewed watcher (watcherLabel comparePath) later)).flatten =
      (observed (reportedAt comparePath) later).flatten := by
  obtain ⟨_, prior, _⟩ := run.split
  have first := pushed_eq_reported prior
  have whole := pushed_eq_reported run
  rw [viewed_append, viewed_cons_some watcher (watcherLabel comparePath) earlier
    (show watcherLabel comparePath before (.connect fd) = some (.connection (some fd)) from rfl),
    observed_append, observed_append, observed_cons, observed_cons, List.flatten_append,
    List.flatten_append] at whole
  simpa [LoopState.pushedAt, reportedAt, first] using whole

/-- The queue of the watcher at the connection, and what is reported later, is sent or still waits. -/
theorem reported_eq_sent (run : Run (system config clamd files comparePath) (later ++ (before, .connect fd) :: earlier) last)
    (opened : Open fd last) (once : ∀ taken ∈ later, isConnect taken.2 = false) :
    before.watcher.jsonQueue.flatten ++ (observed (reportedAt comparePath) later).flatten =
        (observed (sentAt comparePath fd) later).flatten ++ (last.watcher.outstanding fd).getD [] ++
          last.watcher.jsonQueue.flatten ∧
      observed (sentAt comparePath fd) later ⊆
        observed LoopState.pushedAt (viewed watcher (watcherLabel comparePath)
          (later ++ (before, .connect fd) :: earlier)) := by
  obtain ⟨_, running⟩ := open_alive run opened
  have whole := watcher_run run
  have settled := settled_of_running whole running
  have pushed := pushed_eq_popped whole settled
  have unfailed := (sent_eq_read run opened once).2
  have since := pushed_since run
  rw [viewed_append, viewed_cons_some watcher (watcherLabel comparePath) earlier
    (show watcherLabel comparePath before (.connect fd) = some (.connection (some fd)) from rfl)] at *
  obtain ⟨_, served⟩ := served_of_connected before.watcher whole settled running unfailed
  have popped := popped_since whole settled
  rw [show observed (LoopState.sentAt fd) (viewed watcher (watcherLabel comparePath) later) =
    observed (sentAt comparePath fd) later from observed_viewed _ _ _ _] at served
  constructor
  · rw [← since, ← List.flatten_append, popped, List.flatten_append, served, List.flatten_append]
    cases last.watcher.outstanding fd <;> simp
  · intro document member
    rw [pushed, observed_append]
    refine List.mem_append_left _ (List.mem_append_right _ ?_)
    rw [served]
    exact List.mem_append_left _ member

/-- The program receives what is read. -/
theorem received_eq_read (run : Run (system config clamd files comparePath) past last) :
    (observed Program.receivedAt (viewed program programLabel past)).flatten =
      (observed messageAt past).flatMap fun data => (ClamavDbscan.readMessage data).1 := by
  rw [observed_viewed]
  induction run with
  | start => rfl
  | @next past state after label _ stepped ih =>
      rw [observed_cons, observed_cons, List.flatten_append, List.flatMap_append, ih]
      congr 1
      cases step_taken stepped with
      | readMessage fd data others closed program unraised idle connected nonempty =>
          have next : state.nextMessage = some data := by simp [nextMessage, connected, nonempty]
          simp [programLabel, messageAt, next, Program.receivedAt]
      | readEnd socket connected empty =>
          have silent : state.nextMessage = none := by
            rcases empty with ⟨none, _⟩ | first
            · simp [nextMessage, connected, none]
            · simp [nextMessage, connected, first]
          simp [programLabel, messageAt, silent]
      | scanner label program other =>
          cases label with
          | watch label =>
              cases label with
              | receive => contradiction
              | tick | handle | fire | resume | check | reap | take => rfl
          | gather | scanFiles | change | advance | read | stepReady | resume => rfl
      | fileChanged | fsEvent | callback | exit | connect => rfl

/-- The events of the messages that are read are taken, or they wait in the inbox. -/
theorem received_since (run : Run (system config clamd files comparePath) (later ++ (before, .connect fd) :: earlier) last) :
    (observed messageAt later).flatMap (fun data => (ClamavDbscan.readMessage data).1) =
      (observed Program.taken (viewed program programLabel later)).flatten ++ last.program.session.watch.inbox := by
  obtain ⟨after, prior, stepped⟩ := run.split
  change step config clamd comparePath before (.connect fd) = some after at stepped
  have idle : before.program.session.watch.inbox = [] := by
    cases step_taken stepped with
    | connect _ _ _ _ _ idle => exact idle
  have first := Program.received_eq_taken (program_run prior)
  have whole := Program.received_eq_taken (program_run run)
  have silent : viewed program programLabel ((before, .connect fd) :: earlier) =
      viewed program programLabel earlier := by simp [viewed, programLabel]
  rw [received_eq_read prior, idle, List.append_nil] at first
  rw [received_eq_read run, viewed_append, silent, observed_append, observed_append, observed_cons,
    List.flatMap_append, List.flatMap_append, List.flatten_append, first] at whole
  simpa only [messageAt, Option.toList_none, List.flatMap_nil, List.append_nil, List.append_assoc,
    List.append_cancel_left_eq] using whole

/-- The task of the watcher goes on while no event that it takes raises. -/
theorem unraised_watch (run : Run (system config clamd files comparePath) (later ++ (before, .connect fd) :: earlier) last)
    (quiet : ∀ event ∈ (observed Program.taken (viewed program programLabel later)).flatten, ¬ event.Raises) :
    last.program.session.watch.raised = none := by
  induction later generalizing last with
  | nil =>
      have stepped : step config clamd comparePath before (.connect fd) = some last := run.uncons.2
      cases step_taken stepped with
      | connect fd watcher alive unconnected unraised idle goesOn => exact goesOn
  | cons taken later ih =>
      obtain ⟨state, label⟩ := taken
      obtain ⟨prior, stepped⟩ := run.uncons
      have moved := program_step stepped
      cases sees : programLabel state label with
      | none =>
          rw [sees] at moved
          have silent : viewed program programLabel ((state, label) :: later) =
              viewed program programLabel later := by simp [viewed, sees]
          rw [silent] at quiet
          exact (congrArg (fun program => program.session.watch.raised) moved).trans (ih prior quiet)
      | some inner =>
          rw [sees] at moved
          rw [viewed_cons_some program programLabel later sees, observed_cons, List.flatten_append] at quiet
          have kept := (Program.inbox_step moved).raised fun event member =>
            quiet event (List.mem_append_right _ (List.mem_flatten_of_mem (List.mem_singleton_self _) member))
          exact kept.trans (ih prior fun event member => quiet event (List.mem_append_left _ member))

/-- The documents that are sent have valid paths, and they are read as they were reported. -/
theorem sent_readable (run : Run (system config clamd files comparePath) (later ++ (before, .connect fd) :: earlier) last)
    (opened : Open fd last) (once : ∀ taken ∈ later, isConnect taken.2 = false)
    (deliverable : Meets (Deliverable comparePath) (later ++ (before, .connect fd) :: earlier))
    {document : List JsonEvent} (sent : document ∈ observed (sentAt comparePath fd) later) :
    (∀ event ∈ document, Utf8.Valid event.path) ∧
      ClamavDbscan.readMessage (message document) = (document.map fileEvent, none) :=
  readMessage_pushed run deliverable ((reported_eq_sent run opened once).2 sent)

/-- The messages that are read are well formed, and their events are taken or they wait in the inbox. -/
theorem read_since (run : Run (system config clamd files comparePath) (later ++ (before, .connect fd) :: earlier) last)
    (opened : Open fd last) (once : ∀ taken ∈ later, isConnect taken.2 = false)
    (deliverable : Meets (Deliverable comparePath) (later ++ (before, .connect fd) :: earlier)) :
    last.raised = none ∧ ∃ read documents : List (List JsonEvent),
      observed (sentAt comparePath fd) later = read ++ documents ∧ last.unread = documents.map message ∧
        (observed Program.taken (viewed program programLabel later)).flatten ++ last.program.session.watch.inbox =
          read.flatten.map fileEvent := by
  obtain ⟨read, documents, split, messages, unread⟩ :=
    List.map_eq_append_iff.mp (sent_eq_read run opened once).1
  have readable (document : List JsonEvent) (listed : document ∈ read) :
      ClamavDbscan.readMessage (message document) = (document.map fileEvent, none) :=
    (sent_readable run opened once deliverable (split ▸ List.mem_append_left _ listed)).2
  refine ⟨unraised_run run fun data member => ?_, read, documents, split, unread.symm, ?_⟩
  · rw [← messages] at member
    obtain ⟨document, listed, rfl⟩ := List.mem_map.mp member
    rw [readable document listed]
  · rw [← received_since run, ← messages, List.flatMap_map, List.map_flatten, ← List.flatMap_def]
    refine List.flatMap_congr fun document listed => ?_
    rw [readable document listed]

/-- What is taken was reported, and no report raises. -/
theorem quiet_since (run : Run (system config clamd files comparePath) (later ++ (before, .connect fd) :: earlier) last)
    (opened : Open fd last) (once : ∀ taken ∈ later, isConnect taken.2 = false)
    (deliverable : Meets (Deliverable comparePath) (later ++ (before, .connect fd) :: earlier)) :
    ∀ event ∈ (observed Program.taken (viewed program programLabel later)).flatten, ¬ event.Raises := by
  obtain ⟨_, read, documents, split, _, taken⟩ := read_since run opened once deliverable
  intro event member
  have among := List.mem_append_left last.program.session.watch.inbox member
  rw [taken] at among
  obtain ⟨report, listed, rfl⟩ := List.mem_map.mp among
  obtain ⟨document, sent, inside⟩ := List.mem_flatten.mp listed
  have valid := (sent_readable run opened once deliverable (split ▸ List.mem_append_left _ sent)).1
  exact fileEvent_quiet (valid report inside)

/-- The task of the watcher goes on, and each report is handled, received, sent or queued. -/
theorem reported_eq_handled (run : Run (system config clamd files comparePath) (later ++ (before, .connect fd) :: earlier) last)
    (opened : Open fd last) (once : ∀ taken ∈ later, isConnect taken.2 = false)
    (deliverable : Meets (Deliverable comparePath) (later ++ (before, .connect fd) :: earlier)) :
    (last.raised = none ∧ last.program.session.watch.raised = none) ∧
      ∃ documents : List (List JsonEvent), last.unread = documents.map message ∧
        (before.watcher.jsonQueue.flatten ++ (observed (reportedAt comparePath) later).flatten).map fileEvent =
          observed handledAt later ++ last.program.session.watch.inbox ++
            (documents.flatten ++ (last.watcher.outstanding fd).getD [] ++
              last.watcher.jsonQueue.flatten).map fileEvent := by
  have quiet := quiet_since run opened once deliverable
  obtain ⟨unraised, read, documents, split, unread, taken⟩ := read_since run opened once deliverable
  refine ⟨⟨unraised, unraised_watch run quiet⟩, documents, unread, ?_⟩
  rw [Program.taken_eq_handled quiet, observed_viewed] at taken
  change observed handledAt later ++ _ = _ at taken
  rw [taken, (reported_eq_sent run opened once).1, split, List.flatten_append, ← List.map_append]
  simp only [List.append_assoc]

/-- While a connection is open, no change of a file is lost, repeated or reordered. The kernel queues it or the
watcher has read it, and its report is queued, sent, received or handled. -/
structure Conveyed (comparePath : Bytes) (fd : Int) (before : Deployment κ) (later : List (Deployment κ × Label κ))
    (last : Deployment κ) : Prop where
  alive : last.ended = none ∧ last.watcher.control = .running
  goesOn : last.raised = none ∧ last.program.session.watch.raised = none
  kernel : before.kernelQueue ++ observed changedAt later =
    (observed readAt later).flatten ++ last.kernelQueue
  events : ∃ documents : List (List JsonEvent), last.unread = documents.map message ∧
    (before.watcher.jsonQueue.flatten ++ (observed (reportedAt comparePath) later).flatten).map fileEvent =
      observed handledAt later ++ last.program.session.watch.inbox ++
        (documents.flatten ++ (last.watcher.outstanding fd).getD [] ++
          last.watcher.jsonQueue.flatten).map fileEvent

theorem conveyed (run : Run (system config clamd files comparePath) (later ++ (before, .connect fd) :: earlier) last)
    (opened : Open fd last) (once : ∀ taken ∈ later, isConnect taken.2 = false)
    (deliverable : Meets (Deliverable comparePath) (later ++ (before, .connect fd) :: earlier)) :
    Conveyed comparePath fd before later last := by
  obtain ⟨alive, running⟩ := open_alive run opened
  obtain ⟨unraised, events⟩ := reported_eq_handled run opened once deliverable
  refine ⟨⟨alive, running⟩, unraised, ?_, events⟩
  obtain ⟨_, prior, _⟩ := run.split
  have whole := changed_eq_read run
  rw [observed_append, observed_append, observed_cons, observed_cons, changed_eq_read prior] at whole
  simpa [changedAt, readAt] using whole

/-- No directory is gathered, and the scanner is connected to the watcher of `/w`. -/
def exampleStart : Deployment Bool := ⟨[], .initial, none, none, none, Program.exampleStart []⟩

def exampleConnected : Deployment Bool :=
  { exampleStart with
    watcher := { LoopState.initial with table := ⟨[7, -1, -1, -1], 1⟩ }
    socket := some ⟨7, [], false⟩ }

def exampleKernel : Kernel := ⟨fun _ _ _ => some 7, fun _ _ => some [0x2f, 0x77]⟩

def exampleStack : Stack :=
  ⟨List.replicate 280 (UInt8.ofNat 0), Nat.le_of_eq List.length_replicate.symm⟩

def exampleSystem : System (Deployment Bool) (Label Bool) :=
  system ⟨1, true, []⟩ Session.exampleClamd (fun _ => none) [0x2f, 0x77, 0x2f]

theorem exampleConnected_run : Run exampleSystem [(exampleStart, .connect 7)] exampleConnected :=
  .next (.start ⟨rfl, rfl, rfl, rfl, rfl, rfl, ⟨rfl, rfl, rfl, rfl, rfl, rfl⟩, rfl, rfl, rfl, rfl⟩) rfl

def exampleConveyance : List (Label Bool) :=
  [.fileChanged closedFile, .fsEvent exampleKernel exampleStack 8, .callback .idle,
    .callback (.writeable 7 true), .read, .scanner (.watch .handle)]

theorem conveyed_closedFile : ∃ (later : List (Deployment Bool × Label Bool)) (last : Deployment Bool),
    Conveyed [0x2f, 0x77, 0x2f] 7 exampleStart later last ∧
      observed handledAt later = [⟨text "/w/a", .closeForWrite⟩] := by
  obtain ⟨⟨later, last⟩, followed, shown⟩ := (Option.any_eq_true _ _).mp
    (show (follow exampleSystem exampleConveyance ([], exampleConnected)).any (fun reached =>
      decide (reached.2.socket = some ⟨7, [], false⟩ ∧ Meets (Deliverable [0x2f, 0x77, 0x2f]) reached.1 ∧
        (∀ taken ∈ reached.1, isConnect taken.2 = false) ∧
        observed handledAt reached.1 = [⟨text "/w/a", .closeForWrite⟩])) = true from by decide +kernel)
  obtain ⟨connected, deliverable, once, handled⟩ := of_decide_eq_true shown
  have placed := follow_prior [(exampleStart, .connect 7)] followed
  rw [List.nil_append] at placed
  have run := exampleConnected_run.follow exampleConveyance placed
  refine ⟨later, last, conveyed run ⟨[], connected⟩ once ?_, handled⟩
  intro taken member
  rcases List.mem_append.mp member with new | old
  · exact deliverable taken new
  · rw [List.mem_singleton.mp old]
    trivial

end Deployment

end ClamavDbscan
