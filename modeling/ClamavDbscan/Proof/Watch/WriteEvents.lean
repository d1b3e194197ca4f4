import ClamavDbscan.Proof.Watch.DeferredScans

/-
This file decides when the watcher keeps every write event.
-/

namespace ClamavDbscan.OnDemand

/-- The last operation is the newest one that was received for the path. -/
def lastOperation (path : Str) : List Observation → Option Operation
  | [] => none
  | .received event :: older =>
      if event.path = path then some event.operation else lastOperation path older
  | .put _ :: older => lastOperation path older

/-- The path was put after the newest event that was received for it. -/
def PutSince (path : Str) : List Observation → Prop
  | [] => False
  | .received event :: older => event.path ≠ path ∧ PutSince path older
  | .put other :: older => other = path ∨ PutSince path older

/-- The manager holds a task for the path that is neither finished nor asked to stop. -/
def HoldsLive (manager : DeferredScanManager) (path : Str) : Prop :=
  ∃ task entry, manager.scans.lookup path = some task ∧ manager.tasks[task]? = some entry ∧
    entry.live = true

/-- The directory itself is not a file outside of it. -/
def OutsideTmp (path : Str) : Prop :=
  path ≠ text "/tmp" ∧ startsWith path (text "/tmp/") = false

instance decidablePutSince (path : Str) : (history : List Observation) → Decidable (PutSince path history)
  | [] => inferInstanceAs (Decidable False)
  | .received _ :: older =>
      have := decidablePutSince path older
      inferInstanceAs (Decidable (_ ∧ _))
  | .put _ :: older =>
      have := decidablePutSince path older
      inferInstanceAs (Decidable (_ ∨ _))

instance (manager : DeferredScanManager) (path : Str) : Decidable (HoldsLive manager path) :=
  decidable_of_iff (((manager.scans.lookup path).bind (manager.tasks[·]?)).any DeferredTask.live)
    (by
      simp only [HoldsLive, Option.any_eq_true, Option.bind_eq_some_iff]
      exact ⟨fun ⟨entry, ⟨task, found, stored⟩, isLive⟩ => ⟨task, entry, found, stored, isLive⟩,
        fun ⟨task, entry, found, stored, isLive⟩ => ⟨entry, ⟨task, found, stored⟩, isLive⟩⟩)

instance (path : Str) : Decidable (OutsideTmp path) := inferInstanceAs (Decidable (_ ∧ _))

/-- Every newest event that is a write has led to a put or to a live task. -/
def NoWriteLost (state : OnDemand) : Prop :=
  ∀ path operation, OutsideTmp path → lastOperation path state.history = some operation →
    operation.isWrite = true → PutSince path state.history ∨ HoldsLive state.manager path

/-- No dead task holds the key of the path. -/
def Unblocked (manager : DeferredScanManager) (path : Str) : Prop :=
  ∀ task, manager.scans.lookup path = some task →
    ∀ entry, manager.tasks[task]? = some entry → entry.live = true

/-- The events behind one that raises are never handled, so a live task must keep each path that a newest
write among them names. -/
def DroppedKept (manager : DeferredScanManager) (event : FileEvent) (others : List FileEvent) : Prop :=
  ∀ other ∈ others, OutsideTmp other.path →
    (lastOperation other.path (others.reverse.map Observation.received)).any Operation.isWrite = true →
      other.path ≠ event.path ∧ HoldsLive manager other.path

/-- A write event is kept when its path passes the prefix test and no dead task blocks it, when no event before it
in its message raises, and when its task can print the path. -/
def WriteKept (state : OnDemand) : Label → Prop
  | .handle => ∀ event ∈ state.inbox.head?,
      (event.operation.isWrite = true → OutsideTmp event.path →
        startsWith event.path (text "/tmp") = false ∧ Unblocked state.manager event.path) ∧
      (event.Raises → DroppedKept state.manager event state.inbox.tail)
  | .resume number => ∀ task ∈ state.manager.tasks[number]?, task.phase = .created →
      task.cancelRequested = false →
        (lastOperation task.path state.history).any Operation.isWrite = true →
          task.path.any isSurrogate = false
  | _ => True

instance (manager : DeferredScanManager) (path : Str) : Decidable (Unblocked manager path) :=
  decidable_of_iff (∀ task ∈ manager.scans.lookup path, ∀ entry ∈ manager.tasks[task]?,
    entry.live = true) (by simp [Unblocked])

instance (manager : DeferredScanManager) (event : FileEvent) (others : List FileEvent) :
    Decidable (DroppedKept manager event others) :=
  inferInstanceAs (Decidable (∀ other ∈ others, _ → _ → _ ∧ _))

instance (state : OnDemand) : (label : Label) → Decidable (WriteKept state label)
  | .handle => inferInstanceAs (Decidable (∀ event ∈ state.inbox.head?, _ ∧ _))
  | .resume number => inferInstanceAs (Decidable (∀ task ∈ state.manager.tasks[number]?, _))
  | .tick _ | .receive _ | .fire _ | .check | .reap _ | .take => isTrue trivial

/-- A manager that still has the entries of the path and its live tasks holds them live. -/
theorem HoldsLive.mono {manager after : DeferredScanManager} {path : Str}
    (holds : HoldsLive manager path)
    (scans : ∀ task, manager.scans.lookup path = some task → after.scans.lookup path = some task)
    (tasks : ∀ task entry, manager.scans.lookup path = some task →
      manager.tasks[task]? = some entry → entry.live = true →
        ∃ later, after.tasks[task]? = some later ∧ later.live = true) :
    HoldsLive after path := by
  obtain ⟨task, entry, found, stored, isLive⟩ := holds
  obtain ⟨later, kept, still⟩ := tasks task entry found stored isLive
  exact ⟨task, later, scans task found, kept, still⟩

/-- The prefix test also passes over names beside the directory. -/
theorem outsideTmp_of_prefix {path : Str} (outside : startsWith path (text "/tmp") = false) : OutsideTmp path := by
  refine ⟨?_, Bool.eq_false_iff.mpr ?_⟩
  · rintro rfl
    exact absurd outside (by decide)
  · intro inside
    have shorter : text "/tmp" <+: text "/tmp/" := by decide
    have starts := shorter.trans (List.isPrefixOf_iff_prefix.mp inside)
    exact absurd (outside.symm.trans (List.isPrefixOf_iff_prefix.mpr starts)) Bool.false_ne_true

/-- A scheduled path has a live task exactly when nothing stops the schedule. -/
theorem holdsLive_schedule {manager : DeferredScanManager} {filePath : Str} {now : LoopTime}
    (books : Bookkeeping manager) :
    HoldsLive (manager.scheduleFileScan now filePath) filePath ↔
      startsWith filePath (text "/tmp") = false ∧ Unblocked manager filePath := by
  constructor
  · intro holds
    obtain ⟨task, entry, found, stored, isLive⟩ := holds
    refine ⟨(books.schedule now filePath).outside filePath task found, ?_⟩
    intro blocker registered blocking present
    unfold DeferredScanManager.scheduleFileScan at found stored
    simp only [registered, Option.isSome_some, if_true, ite_self, Option.some.injEq] at found stored
    subst found
    rwa [← Option.some.inj (stored.symm.trans present)]
  · intro allowed
    obtain ⟨outside, unblocked⟩ := allowed
    unfold DeferredScanManager.scheduleFileScan
    rw [if_neg (by simp [outside])]
    cases found : manager.scans.lookup filePath with
    | some task =>
        obtain ⟨entry, stored, _⟩ := books.stored filePath task found
        exact ⟨task, entry, found, stored, unblocked task found entry stored⟩
    | none =>
        refine ⟨manager.tasks.length, ⟨filePath, .created, false, now⟩, ?_, ?_, rfl⟩
        · simp
        · simp

/-- A schedule keeps the live tasks of every path. -/
theorem HoldsLive.schedule {manager : DeferredScanManager} {path : Str}
    (holds : HoldsLive manager path) (now : LoopTime) (filePath : Str) :
    HoldsLive (manager.scheduleFileScan now filePath) path := by
  unfold DeferredScanManager.scheduleFileScan
  split
  · exact holds
  · split
    · exact holds
    · rename_i absent
      have missing : manager.scans.lookup filePath = none := by simpa using absent
      apply holds.mono
      · intro task found
        have other : path ≠ filePath := by
          rintro rfl
          simp [missing] at found
        rw [AList.lookup_insert_ne other]
        exact found
      · intro task entry _ stored isLive
        have inside := (List.getElem?_eq_some_iff.mp stored).1
        exact ⟨entry, by rw [List.getElem?_append_left inside]; exact stored, isLive⟩

/-- Cancelling a scan keeps the live tasks of the other paths. -/
theorem HoldsLive.cancel {manager : DeferredScanManager} {path filePath : Str}
    (books : Bookkeeping manager) (holds : HoldsLive manager path) (other : filePath ≠ path) :
    HoldsLive (manager.cancelFileScan filePath) path := by
  unfold DeferredScanManager.cancelFileScan
  split
  · exact holds
  · rename_i number registered
    split
    · exact holds
    · apply holds.mono
      · exact fun task found => found
      · intro task entry found stored isLive
        apply Transition.exists_replace stored isLive
        intro same
        subst same
        exact absurd (books.path_unique registered found) other

/-- Replacing one task by a live one keeps every live task. -/
theorem HoldsLive.set {manager : DeferredScanManager} {path : Str} {number : Nat}
    {after : DeferredTask} (holds : HoldsLive manager path)
    (still : ∀ entry, manager.scans.lookup path = some number →
      manager.tasks[number]? = some entry → entry.live = true → after.live = true) :
    HoldsLive { manager with tasks := manager.tasks.set number after } path := by
  apply holds.mono
  · exact fun task found => found
  · intro task entry found stored isLive
    apply Transition.exists_replace stored isLive
    intro same
    subst same
    exact still entry found stored isLive

/-- A cancelled path has no live task, and the live tasks of the other paths were live before. -/
theorem HoldsLive.of_cancel {manager : DeferredScanManager} {path filePath : Str}
    (holds : HoldsLive (manager.cancelFileScan filePath) path) :
    path ≠ filePath ∧ HoldsLive manager path := by
  obtain ⟨task, entry, found, stored, isLive⟩ := holds
  rw [manager.cancel_scans] at found
  rcases manager.cancel_cases filePath with ⟨number, before, registered, present, cancelled⟩ |
    ⟨missing, skipped⟩
  · rw [cancelled] at stored
    rcases Transition.replace_cases stored with ⟨rfl, rfl⟩ | ⟨other, stored⟩
    · rcases before.cancel_keeps.2.2.2 with finished | asked
      · simp [DeferredTask.live, finished] at isLive
      · simp [DeferredTask.live, asked] at isLive
    · refine ⟨?_, task, entry, found, stored, isLive⟩
      rintro rfl
      exact other (Option.some.inj (found.symm.trans registered))
  · rw [skipped] at stored
    refine ⟨?_, task, entry, found, stored, isLive⟩
    rintro rfl
    rw [missing task found] at stored
    contradiction

theorem lastOperation_received (path : Str) (events : List FileEvent) (older : List Observation) :
    lastOperation path (events.map Observation.received ++ older) =
      (lastOperation path (events.map Observation.received)).or (lastOperation path older) := by
  induction events with
  | nil => rfl
  | cons event others ih =>
      simp only [List.map_cons, List.cons_append, lastOperation, ih]
      split <;> rfl

/-- Events of other paths are not the newest one. -/
theorem lastOperation_absent {path : Str} {events : List FileEvent} (older : List Observation)
    (absent : ∀ event ∈ events, event.path ≠ path) :
    lastOperation path (events.map Observation.received ++ older) = lastOperation path older := by
  induction events with
  | nil => rfl
  | cons event others ih =>
      rw [List.map_cons, List.cons_append, lastOperation, if_neg (absent event List.mem_cons_self)]
      exact ih fun other member => absent other (List.mem_cons_of_mem _ member)

theorem lastOperation_none {path : Str} {events : List FileEvent}
    (newest : lastOperation path (events.map Observation.received) = none) :
    ∀ event ∈ events, event.path ≠ path := by
  induction events with
  | nil => exact fun _ member => absurd member List.not_mem_nil
  | cons event others ih =>
      rw [List.map_cons, lastOperation] at newest
      split at newest
      · contradiction
      · rename_i different
        intro other member
        rcases List.mem_cons.mp member with rfl | member
        · exact different
        · exact ih newest other member

theorem exists_of_lastOperation {path : Str} {events : List FileEvent} {operation : Operation}
    (newest : lastOperation path (events.map Observation.received) = some operation) :
    ∃ event ∈ events, event.path = path := by
  induction events with
  | nil => contradiction
  | cons event others ih =>
      rw [List.map_cons, lastOperation] at newest
      split at newest
      · rename_i same
        exact ⟨event, List.mem_cons_self, same⟩
      · obtain ⟨other, member, named⟩ := ih newest
        exact ⟨other, List.mem_cons_of_mem _ member, named⟩

theorem putSince_received (path : Str) (events : List FileEvent) (older : List Observation) :
    PutSince path (events.map Observation.received ++ older) ↔
      (∀ event ∈ events, event.path ≠ path) ∧ PutSince path older := by
  induction events with
  | nil => simp
  | cons event others ih => simp [PutSince, ih, and_assoc]

theorem mem_of_putSince {path : Str} {history : List Observation} (put : PutSince path history) :
    .put path ∈ history := by
  induction history with
  | nil => exact put.elim
  | cons observation older ih =>
      cases observation with
      | received event => exact List.mem_cons_of_mem _ (ih put.2)
      | put other =>
          rcases put with rfl | put
          · exact List.mem_cons_self
          · exact List.mem_cons_of_mem _ (ih put)

/-- A newest write is kept when another event is seen and the live tasks stay. -/
theorem noWriteLost_received {state after : OnDemand} {event : FileEvent} (kept : NoWriteLost state)
    (history : after.history = .received event :: state.history)
    (others : ∀ path, event.path ≠ path → HoldsLive state.manager path → HoldsLive after.manager path)
    (own : event.operation.isWrite = true → OutsideTmp event.path → HoldsLive after.manager event.path) :
    NoWriteLost after := by
  intro path operation outside newest write
  rw [history, lastOperation] at newest
  by_cases named : event.path = path
  · subst path
    rw [if_pos rfl, Option.some.injEq] at newest
    subst newest
    exact .inr (own write outside)
  · rw [if_neg named] at newest
    rw [history]
    exact (kept path operation outside newest write).imp (fun put => ⟨named, put⟩) (others path named)

/-- The events that are dropped lose no write exactly when live tasks keep their paths. -/
theorem noWriteLost_dropped (before : OnDemand) {after : OnDemand} {manager : DeferredScanManager}
    {event : FileEvent} {others : List FileEvent} (books : Bookkeeping manager) (kept : NoWriteLost before)
    (history : after.history = others.reverse.map Observation.received ++ before.history)
    (same : before.manager = manager.cancelFileScan event.path) (still : after.manager = before.manager) :
    NoWriteLost after ↔ DroppedKept manager event others := by
  rw [same] at still
  constructor
  · intro lossless other member outside written
    obtain ⟨operation, newest, write⟩ := (Option.any_eq_true _ _).mp written
    have last : lastOperation other.path after.history = some operation := by
      rw [history, lastOperation_received, newest]
      rfl
    have holds := (lossless other.path operation outside last write).resolve_left (by
      rw [history, putSince_received]
      exact fun put => put.1 other (List.mem_reverse.mpr member) rfl)
    rw [still] at holds
    exact holds.of_cancel
  · intro dropped path operation outside newest write
    rw [history, lastOperation_received] at newest
    rw [history, putSince_received, still]
    cases last : lastOperation path (others.reverse.map Observation.received) with
    | some newer =>
        rw [last, Option.some_or, Option.some.injEq] at newest
        subst newest
        obtain ⟨other, member, rfl⟩ := exists_of_lastOperation last
        obtain ⟨different, holds⟩ := dropped other (List.mem_reverse.mp member) outside (by rw [last]; exact write)
        exact .inr (holds.cancel books (Ne.symm different))
    | none =>
        rw [last, Option.none_or] at newest
        refine (kept path operation outside newest write).imp ?_ (fun holds => same ▸ holds)
        refine fun put => ⟨?_, put⟩
        rintro other member rfl
        have absent := lastOperation_none last
        exact absent other member rfl

/-- The handling of an event keeps the writes exactly when the event is kept. -/
theorem noWriteLost_handle {state : OnDemand} {event : FileEvent} {others : List FileEvent}
    (books : Bookkeeping state.manager) (inbox : state.inbox = event :: others)
    (kept : NoWriteLost state) :
    NoWriteLost (handleEvent { state with inbox := others } event) ↔ WriteKept state .handle := by
  have same : WriteKept state .handle ↔ (event.operation.isWrite = true → OutsideTmp event.path →
      startsWith event.path (text "/tmp") = false ∧ Unblocked state.manager event.path) ∧
        (event.Raises → DroppedKept state.manager event others) := by
    simp [WriteKept, inbox]
  have booksLeft : Bookkeeping ({ state with inbox := others } : OnDemand).manager := books
  have handled := handleEvent_handled { state with inbox := others } event
  rw [same]
  generalize handleEvent { state with inbox := others } event = after at handled ⊢
  cases handled with
  | write written =>
      have quiet : ¬ event.Raises := fun raises =>
        Bool.false_ne_true ((Operation.isWrite_of_isRemoval raises.1).symm.trans written)
      constructor
      · intro lossless
        refine ⟨fun _ outside => ?_, fun raises => absurd raises quiet⟩
        have holds := lossless event.path event.operation outside (by simp [lastOperation]) written
        simpa [PutSince, holdsLive_schedule books] using holds
      · intro allowed
        refine noWriteLost_received kept rfl (fun path _ holds => holds.schedule state.now event.path) ?_
        exact fun write outside => (holdsLive_schedule books).mpr (allowed.1 write outside)
  | remove removal outside encodes =>
      have noWrite := Operation.isWrite_of_isRemoval removal
      refine iff_of_true (noWriteLost_received kept rfl (fun path named holds => ?_) ?_) ⟨?_, ?_⟩
      · exact holds.cancel books named
      · exact fun write => absurd (noWrite.symm.trans write) Bool.false_ne_true
      · exact fun write => absurd (noWrite.symm.trans write) Bool.false_ne_true
      · exact fun raises => absurd (encodes.symm.trans raises.2.2) Bool.false_ne_true
  | raise removal outside surrogate =>
      have noWrite := Operation.isWrite_of_isRemoval removal
      let cancelled : OnDemand := { state with
        history := .received event :: state.history, manager := state.manager.cancelFileScan event.path }
      have seen : NoWriteLost cancelled := noWriteLost_received kept rfl
        (fun path named holds => holds.cancel books named)
        (fun write => absurd (noWrite.symm.trans write) Bool.false_ne_true)
      have same : DroppedKept state.manager event others ↔ (event.operation.isWrite = true →
          OutsideTmp event.path → startsWith event.path (text "/tmp") = false ∧
            Unblocked state.manager event.path) ∧
          (event.Raises → DroppedKept state.manager event others) := by
        constructor
        · exact fun dropped => ⟨fun write => absurd (noWrite.symm.trans write) Bool.false_ne_true, fun _ => dropped⟩
        · exact fun allowed => allowed.2 ⟨removal, outside, surrogate⟩
      rw [← same]
      apply noWriteLost_dropped cancelled books seen <;> rfl
  | skip other excluded =>
      refine iff_of_true (noWriteLost_received kept rfl (fun _ _ holds => holds) ?_) ⟨?_, ?_⟩
      · exact fun write => absurd (other.symm.trans write) Bool.false_ne_true
      · exact fun write => absurd (other.symm.trans write) Bool.false_ne_true
      · exact fun raises => absurd (raises.2.1.symm.trans (excluded raises.1)) Bool.false_ne_true

theorem noWriteLost_start {state : OnDemand} (begins : OnDemand.start state) : NoWriteLost state := by
  intro path operation _ newest
  rw [begins.2.2.2.2.1] at newest
  contradiction

/-- No task puts a path that it has not printed. -/
structure Printed (state : OnDemand) : Prop where
  kept : Kept state
  queueOpen : QueueOpen state.q
  tasks : ∀ (number : Nat) (task : DeferredTask), state.manager.tasks[number]? = some task → task.Printed
  puts : ∀ path, .put path ∈ state.history → path.any isSurrogate = false

theorem printed_start {state : OnDemand} (begins : OnDemand.start state) : Printed state := by
  have kept := kept_start begins
  have queueOpen := (orderly_start begins).queueOpen
  obtain ⟨_, manager, _, _, history, _⟩ := begins
  refine ⟨kept, queueOpen, ?_, ?_⟩
  · intro number task stored
    rw [manager] at stored
    contradiction
  · intro path put
    rw [history] at put
    contradiction

/-- The handling of an event puts nothing. -/
theorem put_handleEvent {state : OnDemand} {event : FileEvent} {path : Str}
    (put : .put path ∈ (handleEvent state event).history) : .put path ∈ state.history := by
  have handled := handleEvent_handled state event
  generalize handleEvent state event = after at handled put
  cases handled <;> simpa using put

theorem printed_step {state after : OnDemand} {label : Label} (printed : Printed state)
    (stepped : step state label = some after) : Printed after := by
  have kept := kept_step printed.kept stepped
  have queueOpen := (orderly_step ⟨printed.kept.books, printed.queueOpen⟩ stepped).queueOpen
  have advance := step_tasks printed.kept.books stepped
  refine ⟨kept, queueOpen, ?_, ?_⟩
  · intro number later stored
    rcases advance.new number later stored with ⟨task, before⟩ | ⟨_, created⟩
    · obtain ⟨other, same, advances⟩ := advance.old number task before
      obtain rfl := Option.some.inj (stored.symm.trans same)
      exact advances.printed (printed.tasks number task before)
    · exact .inl (by rw [created])
  · intro path put
    cases step_taken stepped with
    | handle event others inbox =>
        have before : .put path ∈ ({ state with inbox := others } : OnDemand).history := put_handleEvent put
        exact printed.puts path before
    | resume number task next q result idle stored resumed =>
        cases result with
        | none => exact printed.puts path put
        | some other =>
            rcases List.mem_cons.mp put with same | old
            · obtain ⟨woken, _, rfl, _⟩ := DeferredTask.resume_put resumed
              obtain rfl := Observation.put.inj same
              exact (printed.tasks number task stored).resolve_left (by simp [woken]) |>.resolve_left
                (by simp [DeferredTask.done, woken])
            · exact printed.puts path old
    | tick | receive | fire | check | reap | take => exact printed.puts path put

/-- A resumed task stays live unless it puts its path or cannot print it. -/
theorem holdsLive_resume {state : OnDemand} {number : Nat} {task next : DeferredTask} {path : Str}
    {q : FinishableQueue Str} {put : Option Str} (printed : Printed state)
    (stored : state.manager.tasks[number]? = some task)
    (resumed : task.resume state.now state.q = some (next, q, put))
    (holds : HoldsLive state.manager path) (elsewhere : put ≠ some path)
    (prints : task.path = path → task.phase = .created → task.cancelRequested = false →
      task.path.any isSurrogate = false) :
    HoldsLive { state.manager with tasks := state.manager.tasks.set number next } path := by
  obtain ⟨_, _, _, _, progress⟩ := DeferredTask.resume_spec printed.queueOpen resumed
  apply holds.set
  intro entry found present isLive
  obtain rfl := Option.some.inj (stored.symm.trans present)
  obtain ⟨holder, held, named⟩ := printed.kept.books.stored path number found
  obtain rfl := Option.some.inj (stored.symm.trans held)
  rcases progress isLive with put | live | ⟨created, _, surrogate⟩
  · rw [named] at put
    exact absurd put elsewhere
  · exact live
  · have free : task.cancelRequested = false := by
      simpa [DeferredTask.live, DeferredTask.done, created] using isLive
    have encodes := prints named created free
    rw [encodes] at surrogate
    contradiction

/-- A resumed task loses no write exactly when its first print succeeds or is not needed. -/
theorem noWriteLost_resume {state : OnDemand} {number : Nat} {task next : DeferredTask}
    {q : FinishableQueue Str} {put : Option Str} (printed : Printed state) (kept : NoWriteLost state)
    (stored : state.manager.tasks[number]? = some task)
    (resumed : task.resume state.now state.q = some (next, q, put)) :
    NoWriteLost { state with
        manager := { state.manager with tasks := state.manager.tasks.set number next }
        q := q
        history := (put.map Observation.put).toList ++ state.history } ↔
      WriteKept state (.resume number) := by
  constructor
  · intro lossless entry present created free written
    obtain rfl := Option.some.inj (stored.symm.trans present)
    obtain ⟨operation, newest, write⟩ := (Option.any_eq_true _ _).mp written
    by_contra surrogate
    have surrogate := eq_true_of_ne_false surrogate
    have registered := printed.kept.unique number task stored (by rw [DeferredTask.done, created])
    have outside := outsideTmp_of_prefix (printed.kept.books.outside task.path number registered)
    have ended : next.done = true ∧ put = none := DeferredTask.resume_surrogate created surrogate resumed
    obtain ⟨finished, rfl⟩ := ended
    rcases lossless task.path operation outside newest write with put | holds
    · have encodes := printed.puts task.path (mem_of_putSince put)
      rw [encodes] at surrogate
      contradiction
    · obtain ⟨other, later, found, after, isLive⟩ := holds
      obtain rfl := Option.some.inj (registered.symm.trans found)
      have inside := (List.getElem?_eq_some_iff.mp stored).1
      obtain rfl : next = later := by simpa [inside] using after
      simp [DeferredTask.live, finished] at isLive
  · intro allowed path operation outside newest write
    have same : lastOperation path ((put.map Observation.put).toList ++ state.history) =
        lastOperation path state.history := by
      cases put <;> rfl
    change lastOperation path ((put.map Observation.put).toList ++ state.history) = _ at newest
    rw [same] at newest
    cases kept path operation outside newest write with
    | inl already =>
        left
        cases put with
        | none => exact already
        | some other => exact .inr already
    | inr holds =>
        by_cases here : put = some path
        · left
          subst here
          exact .inl rfl
        · right
          apply holdsLive_resume printed stored resumed holds here
          intro named created free
          exact allowed task stored created free (by rw [named, newest]; exact write)

/-- Every step but the handling of an event and the first step of a task keeps the writes. -/
theorem noWriteLost_step {state after : OnDemand} {label : Label} (printed : Printed state)
    (kept : NoWriteLost state) (stepped : step state label = some after) :
    NoWriteLost after ↔ WriteKept state label := by
  cases step_taken stepped with
  | handle event others inbox => exact noWriteLost_handle printed.kept.books inbox kept
  | tick elapsed => exact iff_of_true kept trivial
  | receive events idle unraised => exact iff_of_true kept trivial
  | check idle checking => exact iff_of_true kept trivial
  | take path q idle taken => exact iff_of_true kept trivial
  | fire number task next idle stored fired =>
      refine iff_of_true ?_ trivial
      intro path operation outside newest write
      apply (kept path operation outside newest write).imp_right
      intro holds
      exact holds.set (fun _ _ _ _ => (DeferredTask.fire_spec fired).2.2.1)
  | resume number task next q put idle stored resumed => exact noWriteLost_resume printed kept stored resumed
  | reap completed snapshot waits idle nonempty reported =>
      obtain ⟨_, tasks, _, unreported, _⟩ := printed.kept.books.reapPass completed
      refine iff_of_true ?_ trivial
      intro path operation outside newest write
      apply (kept path operation outside newest write).imp_right
      intro holds
      obtain ⟨task, entry, found, present, isLive⟩ := holds
      have absent : task ∉ completed := by
        intro member
        have ended := (List.mem_filter.mp (reported.mem_iff.mp member)).2
        simp [DeferredScanManager.doneTask, present] at ended
        simp [DeferredTask.live, ended] at isLive
      exact ⟨task, entry, unreported path task absent found, by rw [tasks]; exact present, isLive⟩

/-- The watcher loses no write exactly when every step keeps the write events. -/
theorem no_write_lost_iff {past : List (OnDemand × Label)} {last : OnDemand}
    (run : Transition.Run system past last) :
    Transition.Throughout NoWriteLost past last ↔ Transition.Meets WriteKept past := by
  have printed := run.always Printed (fun _ begins => printed_start begins)
    (fun _ _ _ printed stepped => printed_step printed stepped)
  constructor
  · intro kept taken member
    obtain ⟨after, stepped, afterKept⟩ := run.after_step kept taken member
    exact (noWriteLost_step (printed.2 taken member) (kept.2 taken member) stepped).mp afterKept
  · intro met
    have both := run.throughout WriteKept (fun state => Printed state ∧ NoWriteLost state)
      (fun state begins => ⟨printed_start begins, noWriteLost_start begins⟩)
      (fun state label after before allowed stepped =>
        ⟨printed_step before.1 stepped, (noWriteLost_step before.1 before.2 stepped).mpr allowed⟩)
      met
    exact ⟨both.1.2, fun taken member => (both.2 taken member).2⟩

/-- A write that is followed by the removal of another file is put after its delay. -/
theorem no_write_lost_delay : ∃ past last, Transition.Run system past last ∧
    PutSince (text "/a") last.history ∧ Transition.Throughout NoWriteLost past last := by
  have begins : Transition.Run system [] atStart := .start ⟨rfl, rfl, rfl, rfl, rfl, rfl⟩
  have run := begins.follow [.receive [⟨text "/a", .closeForWrite⟩, ⟨text "/b", .remove⟩],
    .handle, .handle, .resume 0, .tick (seconds 10), .fire 0, .resume 0] rfl
  exact ⟨_, _, run, by decide, (no_write_lost_iff run).mpr (by decide)⟩

/-- A file that is written, removed and written again in one message is never scanned. -/
theorem write_after_removal_lost : ¬ ∀ past last, Transition.Run system past last →
    Transition.Throughout NoWriteLost past last := by
  intro always
  have begins : Transition.Run system [] atStart := .start ⟨rfl, rfl, rfl, rfl, rfl, rfl⟩
  have run := begins.follow [.receive [⟨text "/a", .closeForWrite⟩, ⟨text "/a", .remove⟩,
    ⟨text "/a", .closeForWrite⟩], .handle, .handle, .handle] rfl
  have kept := (always _ _ run).1 (text "/a") .closeForWrite (by decide) rfl rfl
  revert kept
  decide

end ClamavDbscan.OnDemand
