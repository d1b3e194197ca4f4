import ClamavDbscan.Construction.Watcher.Process
import ClamavDbscan.Proof.Watcher.Delivery
import Mathlib.Data.List.Nodup

/-
This file proves that a run of the C watcher releases every buffer and every client descriptor once.
-/

namespace ClamavDbscan.Watcher

open ClientTable LoopState RefCount Transition

variable {δ : Type}

namespace Descriptors

variable {descriptors : Descriptors} {connections : List Connection} {fd : Int} {closer : Closer}

/-- These descriptors are open. -/
def openFds (connections : List Connection) : List Int :=
  (connections.filter fun connection => connection.closedBy = none).map Connection.fd

theorem openFds_accept (connections : List Connection) (fd : Int) :
    openFds (connections ++ [⟨fd, none⟩]) = openFds connections ++ [fd] := by
  simp [openFds]

/-- The first open connection with the descriptor is closed. -/
theorem exists_closeFirst (closer : Closer) (member : fd ∈ openFds connections) :
    ∃ closed, closeFirst fd closer connections = some closed ∧
      openFds closed = (openFds connections).erase fd := by
  induction connections with
  | nil => contradiction
  | cons connection others ih =>
      obtain ⟨number, closedBy⟩ := connection
      rw [closeFirst]
      cases closedBy with
      | none =>
          by_cases same : number = fd
          · subst same
            refine ⟨_, if_pos ⟨rfl, rfl⟩, ?_⟩
            simp [openFds]
          · have later : fd ∈ openFds others := by
              simpa [openFds, Ne.symm same] using member
            obtain ⟨closed, found, left⟩ := ih later
            refine ⟨⟨number, none⟩ :: closed, ?_, ?_⟩
            · rw [if_neg fun both => same both.1, found]
              rfl
            · simp only [openFds] at left ⊢
              simp [left, same]
      | some earlier =>
          have later : fd ∈ openFds others := by
            simpa [openFds] using member
          obtain ⟨closed, found, left⟩ := ih later
          refine ⟨⟨number, some earlier⟩ :: closed, ?_, ?_⟩
          · have apart : ¬ (number = fd ∧ some earlier = none) := by simp
            rw [if_neg apart, found]
            rfl
          · simp only [openFds] at left ⊢
            simp [left]

/-- The open descriptors are the clients of the table, and no close has gone wrong. -/
structure Serves (descriptors : Descriptors) (clients : List Int) : Prop where
  sound : descriptors.fault = false
  clients : (openFds descriptors.connections).Perm clients

theorem Serves.accept {clients : List Int} (serves : descriptors.Serves clients) (fd : Int) :
    (descriptors.accept fd).Serves (fd :: clients) := by
  refine ⟨serves.sound, ?_⟩
  rw [Descriptors.accept, openFds_accept]
  exact List.perm_append_singleton _ _ |>.trans (serves.clients.cons fd)

theorem Serves.close {clients : List Int} (serves : descriptors.Serves clients) (closer : Closer)
    (member : fd ∈ clients) : (descriptors.close closer fd).Serves (clients.erase fd) := by
  obtain ⟨closed, found, left⟩ := exists_closeFirst closer (serves.clients.mem_iff.mpr member)
  rw [Descriptors.close, found]
  refine ⟨serves.sound, ?_⟩
  change (openFds closed).Perm _
  rw [left]
  exact serves.clients.erase fd

/-- At the end of `main` every client of the table is closed. -/
theorem Serves.closeClients {slots : List Int} (serves : descriptors.Serves (occupied slots)) :
    (Process.closeClients descriptors slots).Serves [] := by
  induction slots generalizing descriptors with
  | nil => exact serves
  | cons slot others ih =>
      rw [Process.closeClients, List.foldl_cons]
      by_cases free : slot = -1
      · subst free
        rw [if_neg (by simp)]
        exact ih serves
      · rw [if_pos free]
        rw [occupied_cons free] at serves
        have rest := serves.close .main List.mem_cons_self
        rw [List.erase_cons_head] at rest
        exact ih rest

end Descriptors

namespace LoopState

variable {loop : LoopState δ}

/-- A traversal that does not abort finds no client with an active handle. -/
theorem prepare_aborts (buffer : Nat) (slots : List Int) (loop : LoopState δ) :
    (prepare buffer (occupied slots).length slots loop).control = .aborted ∨
      ∀ fd ∈ occupied slots, loop.watched fd = false := by
  induction slots generalizing loop with
  | nil => exact .inr nofun
  | cons slot others ih =>
      by_cases empty : slot = -1
      · subst empty
        rw [prepare_free]
        exact ih loop
      · rw [occupied_cons empty, List.length_cons, prepare, if_neg empty]
        cases watched : loop.watched slot with
        | true =>
            rw [if_pos rfl]
            exact .inl rfl
        | false =>
            rw [if_neg Bool.false_ne_true]
            rcases ih _ with aborted | free
            · exact .inl aborted
            · refine .inr ?_
              intro fd member
              rcases List.mem_cons.mp member with rfl | member
              · exact watched
              · have later := free fd member
                simp only [LoopState.watched, List.any_append, Bool.or_eq_false_iff] at later ⊢
                exact later.1

/-- A broadcast that does not abort visits only clients without an active handle. -/
theorem free_of_sendJsons {json : δ} {others : List δ} (waiting : loop.jsonQueue = json :: others)
    (isSet : loop.table.IsSet) (unaborted : loop.sendJsons.control ≠ .aborted) :
    ∀ fd ∈ loop.table.stored, loop.watched fd = false := by
  have visits := prepare_aborts loop.buffers.length loop.table.clients
    { loop with jsonQueue := others, buffers := loop.buffers ++ [⟨json, 1⟩] }
  rcases visits with aborted | free
  · refine absurd ?_ unaborted
    simp only [sendJsons, waiting, isSet.counted, stored]
    rw [aborted, if_neg (by decide)]
    exact aborted
  · exact free

/-- The traversal takes one reference for each client. -/
theorem prepareCalls_eq (buffer : Nat) {slots : List Int} (loop : LoopState δ)
    (distinct : (occupied slots).Nodup) (free : ∀ fd ∈ occupied slots, loop.watched fd = false) :
    prepareCalls buffer (occupied slots).length slots loop =
      List.replicate (occupied slots).length (.retain buffer) := by
  induction slots generalizing loop with
  | nil => rfl
  | cons slot others ih =>
      by_cases empty : slot = -1
      · subst empty
        rw [occupied_free_cons]
        cases size : (occupied others).length with
        | zero => cases others <;> rfl
        | succ count =>
            have rest := ih loop distinct free
            rw [size] at rest
            rw [prepareCalls, if_pos rfl]
            exact rest
      · rw [occupied_cons empty] at distinct free ⊢
        obtain ⟨absent, rest⟩ := List.nodup_cons.mp distinct
        rw [List.length_cons, prepareCalls, if_neg empty, free slot List.mem_cons_self,
          if_neg Bool.false_ne_true, List.replicate_succ]
        refine congrArg (List.cons _) (ih _ rest ?_)
        intro fd member
        have other : slot ≠ fd := fun same => absent (same ▸ member)
        have before := free fd (List.mem_cons_of_mem _ member)
        simp only [LoopState.watched] at before ⊢
        simp [before, other]

/-- A handle owns a reference of its buffer until it is closing. -/
def owners (handles : List WriteHandle) : List Nat :=
  (handles.filter fun handle => !handle.closing).map WriteHandle.buffer

theorem count_owners (handles : List WriteHandle) (index : Nat) :
    (owners handles).count index =
      handles.countP fun handle => !handle.closing && handle.buffer == index := by
  rw [owners, List.count, List.countP_map, List.countP_filter]
  refine List.countP_congr ?_
  intro handle _
  simp [and_comm]

/-- Only the handles and the buffers matter for the counts. -/
theorem Referenced.same {after : LoopState δ} (referenced : loop.Referenced)
    (handles : after.handles = loop.handles) (buffers : after.buffers = loop.buffers) : after.Referenced := by
  constructor
  · rw [handles, buffers]
    exact referenced.counted
  · rw [handles, buffers]
    exact referenced.allocated

theorem length_unrefs (handles : List WriteHandle) (buffers : List (MessageBuffer δ)) :
    (handles.foldl (fun buffers handle => unref buffers handle.buffer) buffers).length = buffers.length := by
  induction handles generalizing buffers with
  | nil => rfl
  | cons handle others ih =>
      rw [List.foldl_cons, ih, unref, List.length_modify]

@[simp] theorem owners_append (front back : List WriteHandle) :
    owners (front ++ back) = owners front ++ owners back := by
  simp [owners]

@[simp] theorem owners_new (buffer : Nat) (fds : List Int) :
    owners (fds.map fun fd => ⟨fd, buffer, true, false⟩) = List.replicate fds.length buffer := by
  induction fds with
  | nil => rfl
  | cons fd others ih => exact congrArg (List.cons buffer) ih

theorem owners_closed (handles : List WriteHandle) :
    owners (handles.map fun handle => { handle with active := false, closing := true }) = [] := by
  simp [owners]

end LoopState

namespace Process

variable {process after : Process δ}

/-- Between two callbacks of a run that does not abort, the handles that are not closing own the
references, and the open descriptors are the clients. -/
structure Kept (process : Process δ) : Prop where
  control : process.loop.control = .running ∨ process.loop.control = .interrupted
  isSet : process.loop.table.IsSet
  handles : ∀ handle ∈ process.loop.handles, handle.active = !handle.closing
  distinct : (watchedFds process.loop.handles).Nodup
  clients : ∀ fd ∈ watchedFds process.loop.handles, fd ∈ process.loop.table.stored
  buffers : process.memory.cells.length = process.loop.buffers.length
  backs : process.memory.Backs (owners process.loop.handles)
  serves : process.descriptors.Serves (if process.ended then [] else process.loop.table.stored)
  interrupted : process.loop.control = .interrupted → owners process.loop.handles = []
  referenced : process.loop.control = .running → process.loop.Referenced
  ended : process.ended = true → process.loop.control = .interrupted

namespace Kept

theorem initial : (.initial : Process δ).Kept :=
  ⟨.inl rfl, .initial, nofun, .nil, nofun, rfl, .initial, ⟨rfl, .nil⟩, nofun, fun _ => .initial, nofun⟩

/-- While the loop runs, `main` has not closed its clients. -/
theorem running_serves (kept : process.Kept) (running : process.loop.control = .running) :
    process.ended = false ∧ process.descriptors.Serves process.loop.table.stored := by
  have open' : process.ended = false := by
    rw [Bool.eq_false_iff]
    intro ended
    have stopped := kept.ended ended
    rw [running] at stopped
    cases stopped
  have serves := kept.serves
  rw [open', if_neg Bool.false_ne_true] at serves
  exact ⟨open', serves⟩

/-- A callback that leaves the clients, the handles and the buffers alone keeps the invariant. -/
theorem quiet (kept : process.Kept) {loop : LoopState δ} (running : process.loop.control = .running)
    (control : loop.control = .running) (table : loop.table = process.loop.table)
    (handles : loop.handles = process.loop.handles) (buffers : loop.buffers = process.loop.buffers) :
    Kept { process with loop := loop } := by
  obtain ⟨unended, serves⟩ := kept.running_serves running
  constructor
  · exact .inl control
  · exact table ▸ kept.isSet
  · exact handles ▸ kept.handles
  · exact handles ▸ kept.distinct
  · change ∀ fd ∈ watchedFds loop.handles, fd ∈ loop.table.stored
    rw [handles, table]
    exact kept.clients
  · exact buffers ▸ kept.buffers
  · exact handles ▸ kept.backs
  · change process.descriptors.Serves (if process.ended then [] else loop.table.stored)
    rw [table]
    exact kept.serves
  · intro stopped
    cases control.symm.trans stopped
  · exact fun _ => (kept.referenced running).same handles buffers
  · intro ended
    cases unended.symm.trans ended

theorem connection (kept : process.Kept) (running : process.loop.control = .running) {fd : Int}
    (valid : 0 ≤ fd) (absent : fd ∉ process.loop.table.clients) :
    Kept { process with
      descriptors := process.descriptors.accept fd
      loop := { process.loop with table := process.loop.table.addClient fd } } := by
  obtain ⟨unended, serves⟩ := kept.running_serves running
  have used : fd ≠ -1 := by omega
  have fresh : fd ∉ process.loop.table.stored := fun member => absent (mem_occupied.mp member).1
  have added := addClient_stored kept.isSet used
  refine ⟨kept.control, kept.isSet.addClient used fresh, kept.handles, kept.distinct, ?_, kept.buffers,
    kept.backs, ?_, kept.interrupted, fun _ => (kept.referenced running).same rfl rfl, kept.ended⟩
  · exact fun other member => added.mem_iff.mpr (List.mem_cons_of_mem _ (kept.clients other member))
  · change (process.descriptors.accept fd).Serves (if process.ended then [] else _)
    rw [unended, if_neg Bool.false_ne_true]
    have accepted := serves.accept fd
    exact ⟨accepted.sound, accepted.clients.trans added.symm⟩

/-- A broadcast gives one reference to each new handle and keeps none. -/
theorem sendJsons (kept : process.Kept) (running : process.loop.control = .running)
    (unaborted : process.loop.sendJsons.control ≠ .aborted) :
    Kept { process with
      memory := process.memory.calls process.loop.sendJsonsCalls
      loop := process.loop.sendJsons } := by
  cases waiting : process.loop.jsonQueue with
  | nil =>
      rw [LoopState.sendJsons, sendJsonsCalls, waiting]
      exact kept
  | cons json others =>
      obtain ⟨unended, serves⟩ := kept.running_serves running
      have free := free_of_sendJsons waiting kept.isSet unaborted
      have sent := sendJsons_eq waiting running kept.isSet free
      have referenced := (kept.referenced running).sendJsons waiting running kept.isSet free
      have idle : watchedFds process.loop.handles = [] := by
        refine List.eq_nil_iff_forall_not_mem.mpr ?_
        intro fd watched
        have busy := (watched_iff process.loop fd).mpr watched
        rw [free fd (kept.clients fd watched)] at busy
        cases busy
      have calls : process.loop.sendJsonsCalls = .allocate ::
          List.replicate process.loop.table.stored.length (.retain process.loop.buffers.length) ++
            [.release process.loop.buffers.length] := by
        have still : process.loop.sendJsons.control = .running := by
          rw [sent]
          exact running
        rw [sendJsonsCalls, waiting, still, if_pos rfl, kept.isSet.counted]
        have retains := prepareCalls_eq process.loop.buffers.length
          { process.loop with jsonQueue := others, buffers := process.loop.buffers ++ [⟨json, 1⟩] }
          kept.isSet.distinct free
        exact congrArg (fun calls => .allocate :: calls ++ [.release process.loop.buffers.length]) retains
      have memory : (process.memory.calls process.loop.sendJsonsCalls).Backs
          (List.replicate process.loop.table.stored.length process.loop.buffers.length ++
            owners process.loop.handles) := by
        have begun := kept.backs.allocate
        rw [kept.buffers] at begun
        have retained := begun.retainAll List.mem_cons_self process.loop.table.stored.length
        have released := (retained.perm List.perm_middle).release List.mem_cons_self
        rw [List.erase_cons_head] at released
        rw [calls, Memory.calls_append]
        exact released
      rw [sent] at referenced ⊢
      constructor
      · exact .inl running
      · exact kept.isSet
      · intro handle member
        rcases List.mem_append.mp member with old | new
        · exact kept.handles handle old
        · obtain ⟨fd, _, rfl⟩ := List.mem_map.mp new
          rfl
      · change (watchedFds (_ ++ _)).Nodup
        rw [watchedFds_append, watchedFds_new, idle]
        exact kept.isSet.distinct
      · change ∀ fd ∈ watchedFds (_ ++ _), fd ∈ process.loop.table.stored
        rw [watchedFds_append, watchedFds_new, idle]
        exact fun _ member => member
      · change (process.memory.calls _).cells.length = List.length _
        rw [Memory.length_calls, calls, broadcast_buffers, kept.buffers]
        have none : (List.replicate process.loop.table.stored.length
            (MemoryCall.retain process.loop.buffers.length)).count .allocate = 0 := by
          refine List.count_eq_zero.mpr ?_
          intro member
          cases List.eq_of_mem_replicate member
        simp [none]
      · change Memory.Backs _ (owners (_ ++ _))
        rw [owners_append, owners_new]
        exact memory.perm List.perm_append_comm
      · exact kept.serves
      · intro stopped
        cases running.symm.trans stopped
      · exact fun _ => referenced
      · intro ended
        cases unended.symm.trans ended

/-- The first active handle of a client is its only one. -/
theorem find_active (kept : process.Kept) {number : Nat} {handle : WriteHandle}
    (stored : process.loop.handles[number]? = some handle) (active : handle.active = true) :
    (process.loop.handles.find? fun other => other.active && other.fd == handle.fd) = some handle := by
  have member := List.mem_of_getElem? stored
  cases found : process.loop.handles.find? fun other => other.active && other.fd == handle.fd with
  | none =>
      have absent := List.find?_eq_none.mp found handle member
      simp [active] at absent
  | some other =>
      have chosen := List.find?_some found
      simp only [Bool.and_eq_true, beq_iff_eq] at chosen
      have same := List.inj_on_of_nodup_map kept.distinct
        (List.mem_filter.mpr ⟨List.mem_of_find?_eq_some found, chosen.1⟩)
        (List.mem_filter.mpr ⟨member, active⟩) chosen.2
      rw [same]

/-- A send reads its buffer, and then it drops its reference. -/
theorem onClientWriteable (kept : process.Kept) (running : process.loop.control = .running) {number : Nat}
    {handle : WriteHandle} (stored : process.loop.handles[number]? = some handle)
    (active : handle.active = true) (sent : Bool) :
    Kept { process.onClientWriteable handle sent with
      loop := process.loop.onClientWriteable number handle sent } := by
  obtain ⟨unended, serves⟩ := kept.running_serves running
  have unclosed : (!handle.closing) = true :=
    (kept.handles handle (List.mem_of_getElem? stored)).symm.trans active
  have leaves : (owners process.loop.handles).Perm (handle.buffer ::
      owners (process.loop.handles.set number { handle with active := false, closing := true })) :=
    map_filter_set WriteHandle.buffer stored unclosed rfl
  have stops : (watchedFds process.loop.handles).Perm (handle.fd ::
      watchedFds (process.loop.handles.set number { handle with active := false, closing := true })) :=
    watchedFds_set stored active rfl
  have client := kept.clients handle.fd (mem_watchedFds (List.mem_of_getElem? stored) active)
  obtain ⟨gone, distinct⟩ := List.nodup_cons.mp (stops.nodup_iff.mp kept.distinct)
  have memory : (process.memory.calls [.use handle.buffer, .release handle.buffer]).Backs
      (owners (process.loop.handles.set number { handle with active := false, closing := true })) := by
    have used := (kept.backs.perm leaves).use List.mem_cons_self
    have released := used.release List.mem_cons_self
    rw [List.erase_cons_head] at released
    exact released
  have handles : ∀ other ∈ process.loop.handles.set number { handle with active := false, closing := true },
      other.active = !other.closing := by
    intro other member
    rcases List.mem_or_eq_of_mem_set member with old | rfl
    · exact kept.handles other old
    · rfl
  have buffers : (process.memory.calls [.use handle.buffer, .release handle.buffer]).cells.length =
      (unref process.loop.buffers handle.buffer).length := by
    rw [Memory.length_calls, unref, List.length_modify, kept.buffers]
    rfl
  have referenced := (kept.referenced running).onClientWriteable stored active sent
  have known : ∀ fd ∈ watchedFds (process.loop.handles.set number
      { handle with active := false, closing := true }), fd ≠ handle.fd ∧ fd ∈ process.loop.table.stored := by
    intro fd member
    refine ⟨fun same => gone (same ▸ member), kept.clients fd ?_⟩
    exact stops.mem_iff.mpr (List.mem_cons_of_mem _ member)
  cases sent with
  | true =>
      exact ⟨kept.control, kept.isSet, handles, distinct, fun fd member => (known fd member).2, buffers,
        memory, kept.serves, fun stopped => absurd (running.symm.trans stopped) (by decide), fun _ => referenced,
        kept.ended⟩
  | false =>
      have valid := (mem_occupied.mp client).2
      have removed : (process.loop.table.removeClient handle.fd).stored =
          process.loop.table.stored.erase handle.fd := removeClient_stored valid
      refine ⟨kept.control, kept.isSet.removeClient client, handles, distinct, ?_, buffers, memory, ?_,
        fun stopped => absurd (running.symm.trans stopped) (by decide), fun _ => referenced, kept.ended⟩
      · intro fd member
        change fd ∈ (process.loop.table.removeClient handle.fd).stored
        obtain ⟨other, stored⟩ := known fd member
        rw [removed]
        exact (List.mem_erase_of_ne other).mpr stored
      · change (process.descriptors.close .onClientWriteable handle.fd).Serves
          (if process.ended then [] else (process.loop.table.removeClient handle.fd).stored)
        rw [unended, if_neg Bool.false_ne_true, removed]
        exact serves.close .onClientWriteable client

/-- The signal handler drops the references of the handles that are not closing. -/
theorem openHandles (kept : process.Kept) (running : process.loop.control = .running) :
    Kept { process.openHandles with loop := process.loop.openHandles } := by
  have dropped : ((process.loop.handles.filter fun handle => !handle.closing).map fun handle =>
      MemoryCall.release handle.buffer) = (owners process.loop.handles).map .release := by
    rw [owners, List.map_map]
    rfl
  have memory : (process.memory.calls ((process.loop.handles.filter fun handle => !handle.closing).map
      fun handle => .release handle.buffer)).Backs [] := by
    have whole := kept.backs
    rw [← List.append_nil (owners process.loop.handles)] at whole
    rw [dropped]
    exact whole.releaseAll
  have buffers : (process.memory.calls ((process.loop.handles.filter fun handle => !handle.closing).map
      fun handle => .release handle.buffer)).cells.length = process.loop.openHandles.buffers.length := by
    have none : ((owners process.loop.handles).map MemoryCall.release).count .allocate = 0 := by
      refine List.count_eq_zero.mpr ?_
      intro member
      obtain ⟨_, _, same⟩ := List.mem_map.mp member
      cases same
    rw [dropped, Memory.length_calls, none, kept.buffers]
    exact (length_unrefs _ _).symm
  obtain ⟨unended, _⟩ := kept.running_serves running
  constructor
  · exact .inr rfl
  · exact kept.isSet
  · intro handle member
    obtain ⟨_, _, rfl⟩ := List.mem_map.mp member
    rfl
  · change (watchedFds (process.loop.handles.map _)).Nodup
    rw [watchedFds_closed]
    exact .nil
  · change ∀ fd ∈ watchedFds (process.loop.handles.map _), _
    rw [watchedFds_closed]
    exact nofun
  · exact buffers
  · change Memory.Backs _ (owners (process.loop.handles.map _))
    rw [owners_closed]
    exact memory
  · exact kept.serves
  · exact fun _ => owners_closed _
  · intro still
    cases still
  · exact fun _ => rfl

/-- The end of `main` closes the clients that are left. -/
theorem exit (kept : process.Kept) (unended : process.ended = false)
    (stopped : process.loop.control = .interrupted) :
    Kept { process with
      descriptors := closeClients process.descriptors process.loop.table.clients
      ended := true } := by
  have serves := kept.serves
  rw [unended, if_neg Bool.false_ne_true] at serves
  exact ⟨kept.control, kept.isSet, kept.handles, kept.distinct, kept.clients, kept.buffers, kept.backs,
    serves.closeClients, kept.interrupted, kept.referenced, fun _ => stopped⟩

theorem step {act : Act δ} (kept : process.Kept) (taken : process.step act = some after)
    (unaborted : after.loop.control ≠ .aborted) : after.Kept := by
  cases act with
  | exit =>
      obtain ⟨⟨stopped, unended⟩, same⟩ := Option.ite_none_right_eq_some.mp taken
      obtain rfl := Option.some.inj same
      exact kept.exit unended stopped
  | callback label =>
      obtain ⟨loop, moved, rfl⟩ := Option.map_eq_some_iff.mp taken
      have running := step_running moved
      cases label with
      | fsEvent batch =>
          obtain rfl := step_fsEvent moved
          cases batch with
          | wrongVersion => exact kept.quiet running running rfl rfl rfl
          | nothing => exact kept
          | document json => exact kept.quiet running running rfl rfl rfl
      | connection accepted =>
          cases accepted with
          | none =>
              obtain rfl := step_rejected moved
              exact kept.quiet running running rfl rfl rfl
          | some fd =>
              obtain ⟨valid, absent, rfl⟩ := step_connection moved
              exact kept.connection running valid absent
      | idle =>
          obtain ⟨_, rfl⟩ := step_idle moved
          exact kept.sendJsons running unaborted
      | writeable fd sent =>
          obtain ⟨number, handle, stored, active, rfl, rfl⟩ := step_writeable moved
          have effect : process.callback (.writeable handle.fd sent) =
              process.onClientWriteable handle sent := by
            rw [callback, kept.find_active stored active]
          rw [effect]
          exact kept.onClientWriteable running stored active sent
      | sigint =>
          obtain rfl := step_sigint moved
          exact kept.openHandles running

end Kept

variable {past : List (Process δ × Act δ)} {last : Process δ}

/-- An aborted process does nothing more. -/
theorem unaborted_before {act : Act δ} (taken : process.step act = some after) :
    process.loop.control ≠ .aborted := by
  intro aborted
  cases act with
  | exit =>
      obtain ⟨⟨stopped, _⟩, _⟩ := Option.ite_none_right_eq_some.mp taken
      cases aborted.symm.trans stopped
  | callback label =>
      obtain ⟨loop, moved, _⟩ := Option.map_eq_some_iff.mp taken
      cases aborted.symm.trans (step_running moved)

theorem kept_run (run : Run system past last) (unaborted : last.loop.control ≠ .aborted) :
    Throughout Kept past last := by
  induction run with
  | start begins =>
      obtain rfl : _ = Process.initial := begins
      exact ⟨.initial, by simp⟩
  | next earlier taken ih =>
      have before := ih (unaborted_before taken)
      rw [throughout_cons]
      exact ⟨before.1.step taken unaborted, before⟩

theorem Kept.counted (kept : process.Kept) (index : Nat) (cell : Cell)
    (stored : process.memory.cells[index]? = some cell) (unfreed : cell.frees = 0) :
    0 < cell.refcount ∧ cell.refcount = process.loop.handles.countP fun handle =>
      !handle.closing && handle.buffer == index := by
  rw [← count_owners]
  exact kept.backs.positive stored unfreed

/-- The cells hold the counts of the loop's buffers. -/
theorem Kept.cells_eq (kept : process.Kept) (running : process.loop.control = .running) {index : Nat}
    {buffer : MessageBuffer δ} (stored : process.loop.buffers[index]? = some buffer) :
    process.memory.cells[index]? = some (.owned buffer.refcount) := by
  have inside := (List.getElem?_eq_some_iff.mp stored).1
  rw [← kept.buffers] at inside
  rw [kept.backs.counted index inside, (kept.referenced running).counted index buffer stored, count_owners]
  refine congrArg (fun count => some (Cell.owned count)) (List.countP_congr ?_)
  intro handle member
  rw [kept.handles handle member]

end Process

end ClamavDbscan.Watcher
