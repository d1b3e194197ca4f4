import ClamavDbscan.Proof.Watcher.SlowClient

/-
This file proves that every client of the C watcher gets each document once and in order.
-/

namespace ClamavDbscan.Watcher

variable {δ : Type}

open ClientTable LoopState Transition

namespace LoopState

variable {loop after : LoopState δ} {fd other : Int}

/-- The message of a buffer can be read until the buffer is freed. -/
def readBuffer (buffers : List (MessageBuffer δ)) (index : Nat) : Option δ :=
  match buffers[index]? with
  | some buffer => if 0 < buffer.refcount then some buffer.message else none
  | none => none

/-- The active handle of a client is the first one that watches its descriptor. -/
def activeHandle (handles : List WriteHandle) (fd : Int) : Option WriteHandle :=
  handles.find? fun handle => handle.active && handle.fd == fd

/-- This document is sent when the client is writable. -/
def outstanding (loop : LoopState δ) (fd : Int) : Option δ :=
  (activeHandle loop.handles fd).bind fun handle => readBuffer loop.buffers handle.buffer

def pushedAt : LoopState δ × Label δ → Option δ
  | (_, .fsEvent (.document json)) => some json
  | _ => none

def poppedAt : LoopState δ × Label δ → Option δ
  | (loop, .idle) => loop.jsonQueue.head?
  | _ => none

/-- This document goes to the client with a successful send. -/
def sentAt (fd : Int) : LoopState δ × Label δ → Option δ
  | (loop, .writeable client sent) => if sent ∧ client = fd then loop.outstanding fd else none
  | _ => none

/-- The idle handle runs exactly while a document is queued. -/
def IdleIffQueued (loop : LoopState δ) : Prop :=
  loop.idleActive = true ↔ loop.jsonQueue ≠ []

/-- The count of a buffer is the number of active handles that send it. -/
structure Referenced (loop : LoopState δ) : Prop where
  counted : ∀ index buffer, loop.buffers[index]? = some buffer →
    buffer.refcount = loop.handles.countP fun handle => handle.active && handle.buffer == index
  allocated : ∀ handle ∈ loop.handles, handle.active = true → handle.buffer < loop.buffers.length

theorem mem_watchedFds {handles : List WriteHandle} {handle : WriteHandle}
    (member : handle ∈ handles) (active : handle.active = true) : handle.fd ∈ watchedFds handles := by
  rw [watchedFds, List.mem_map]
  exact ⟨handle, List.mem_filter.mpr ⟨member, active⟩, rfl⟩

theorem activeHandle_eq_none : activeHandle loop.handles fd = none ↔ fd ∉ watchedFds loop.handles := by
  rw [← watched_iff, watched, activeHandle, List.find?_eq_none]
  simp

/-- A handle that is not active is no handle of a client. -/
theorem activeHandle_set {handles : List WriteHandle} {number : Nat} {handle closed : WriteHandle}
    (stored : handles[number]? = some handle) (elsewhere : handle.fd ≠ fd)
    (stopped : closed.active = false) :
    activeHandle (handles.set number closed) fd = activeHandle handles fd := by
  induction handles generalizing number with
  | nil => contradiction
  | cons first others ih =>
      cases number with
      | zero =>
          obtain rfl := Option.some.inj stored
          simp [activeHandle, stopped, elsewhere]
      | succ number =>
          have rest := ih stored
          simp only [activeHandle, List.set_cons_succ, List.find?_cons] at rest ⊢
          rw [rest]

theorem activeHandle_new {fds : List Int} (buffer : Nat) (member : fd ∈ fds) :
    activeHandle (fds.map fun fd => ⟨fd, buffer, true, false⟩) fd = some ⟨fd, buffer, true, false⟩ := by
  induction fds with
  | nil => contradiction
  | cons first others ih =>
      by_cases same : first = fd
      · simp [activeHandle, same]
      · have later := ih (List.mem_of_ne_of_mem (Ne.symm same) member)
        simpa [activeHandle, same] using later

/-- The changes of the new buffer do not touch the others. -/
theorem modify_new (buffers : List (MessageBuffer δ)) (buffer : MessageBuffer δ)
    (change : MessageBuffer δ → MessageBuffer δ) :
    (buffers ++ [buffer]).modify buffers.length change = buffers ++ [change buffer] := by
  induction buffers with
  | nil => rfl
  | cons first others ih => simpa using ih

/-- The new buffer has one reference for each client. -/
theorem broadcast_buffers (buffers : List (MessageBuffer δ)) (json : δ) (fds : List Int) :
    unref (fds.foldl (fun changed _ => ref changed buffers.length) (buffers ++ [⟨json, 1⟩]))
      buffers.length = buffers ++ [⟨json, fds.length⟩] := by
  have counted (count : Nat) : fds.foldl (fun changed _ => ref changed buffers.length)
      (buffers ++ [⟨json, count⟩]) = buffers ++ [⟨json, count + fds.length⟩] := by
    induction fds generalizing count with
    | nil => rfl
    | cons fd others ih =>
        rw [List.foldl_cons, ref, modify_new, ih, List.length_cons, Nat.add_assoc, Nat.add_comm 1]
  rw [counted, unref, modify_new, Nat.add_sub_cancel_left]

namespace Referenced

theorem initial : (.initial : LoopState δ).Referenced :=
  ⟨by simp [LoopState.initial], by simp [LoopState.initial]⟩

/-- A broadcast refers to its new buffer only. -/
theorem sendJsons {json : δ} {others : List δ} (referenced : loop.Referenced)
    (waiting : loop.jsonQueue = json :: others) (running : loop.control = .running)
    (isSet : loop.table.IsSet) (free : ∀ fd ∈ loop.table.stored, loop.watched fd = false) :
    loop.sendJsons.Referenced := by
  rw [sendJsons_eq waiting running isSet free, broadcast_buffers]
  constructor
  · intro index buffer found
    dsimp only at found ⊢
    rw [List.countP_append, List.countP_map]
    rcases Nat.lt_trichotomy index loop.buffers.length with old | fresh | outside
    · rw [List.getElem?_append_left old] at found
      rw [referenced.counted index buffer found]
      simp [Function.comp_def, Nat.ne_of_gt old]
    · subst fresh
      have unused : (loop.handles.countP fun handle =>
          handle.active && handle.buffer == loop.buffers.length) = 0 := by
        rw [List.countP_eq_zero]
        intro handle member
        have allocated := referenced.allocated handle member
        simp only [Bool.and_eq_true, beq_iff_eq, not_and]
        exact fun active => Nat.ne_of_lt (allocated active)
      rw [List.getElem?_concat_length] at found
      obtain rfl := Option.some.inj found
      simp [unused, Function.comp_def]
    · rw [List.getElem?_eq_none (by simp; omega)] at found
      contradiction
  · intro handle member active
    dsimp only at member ⊢
    rw [List.length_append, List.length_singleton]
    rcases List.mem_append.mp member with old | new
    · exact Nat.lt_succ_of_lt (referenced.allocated handle old active)
    · obtain ⟨fd, _, rfl⟩ := List.mem_map.mp new
      exact Nat.lt_succ_self _

/-- A send gives its own reference back. -/
theorem onClientWriteable (referenced : loop.Referenced) {number : Nat} {handle : WriteHandle}
    (stored : loop.handles[number]? = some handle) (active : handle.active = true) (sent : Bool) :
    (loop.onClientWriteable number handle sent).Referenced := by
  obtain ⟨inside, same⟩ := List.getElem?_eq_some_iff.mp stored
  constructor
  · intro index buffer found
    change (loop.buffers.modify handle.buffer _)[index]? = _ at found
    change buffer.refcount = (loop.handles.set number _).countP _
    rw [List.getElem?_modify] at found
    obtain ⟨before, known, rfl⟩ := Option.map_eq_some_iff.mp found
    have counted := referenced.counted index before known
    rw [List.countP_set inside, same, active]
    by_cases own : handle.buffer = index
    · simp [own, counted]
    · simp [own, counted]
  · intro other member busy
    change other.buffer < (loop.buffers.modify _ _).length
    rw [List.length_modify]
    rcases List.mem_or_eq_of_mem_set member with old | rfl
    · exact referenced.allocated other old busy
    · contradiction

/-- An active handle finds its message. -/
theorem outstanding_eq (referenced : loop.Referenced) (fd : Int) :
    loop.outstanding fd = (activeHandle loop.handles fd).bind fun handle =>
      (loop.buffers[handle.buffer]?).map MessageBuffer.message := by
  cases found : activeHandle loop.handles fd with
  | none => simp [outstanding, found]
  | some handle =>
      have member := List.mem_of_find?_eq_some found
      have active := List.find?_some found
      rw [outstanding, found, Option.bind_some, Option.bind_some, readBuffer]
      cases known : loop.buffers[handle.buffer]? with
      | none => rfl
      | some buffer =>
          have positive : 0 < buffer.refcount := by
            rw [referenced.counted _ buffer known, List.countP_pos_iff]
            exact ⟨handle, member, by simp_all⟩
          simp [positive]

end Referenced

theorem outstanding_of_unwatched (unwatched : fd ∉ watchedFds loop.handles) :
    loop.outstanding fd = none := by
  rw [outstanding, activeHandle_eq_none.mpr unwatched, Option.bind_none]

theorem activeHandle_append {fds : List Int} {handles : List WriteHandle} (buffer : Nat)
    (unwatched : fd ∉ watchedFds handles) (member : fd ∈ fds) :
    activeHandle (handles ++ fds.map fun fd => ⟨fd, buffer, true, false⟩) fd =
      some ⟨fd, buffer, true, false⟩ := by
  have new := activeHandle_new buffer member
  have old : activeHandle handles fd = none := by
    rw [activeHandle, List.find?_eq_none]
    simpa [watchedFds] using unwatched
  rw [activeHandle] at old new ⊢
  rw [List.find?_append, old, new, Option.none_or]

/-- A broadcast makes its document outstanding for every client. -/
theorem outstanding_sendJsons {json : δ} {others : List δ} (waiting : loop.jsonQueue = json :: others)
    (running : loop.control = .running) (isSet : loop.table.IsSet)
    (free : ∀ fd ∈ loop.table.stored, loop.watched fd = false) (member : fd ∈ loop.table.stored) :
    loop.sendJsons.outstanding fd = some json := by
  have unwatched : fd ∉ watchedFds loop.handles := by
    rw [← watched_iff, free fd member]
    exact Bool.false_ne_true
  rw [sendJsons_eq waiting running isSet free, broadcast_buffers, outstanding,
    activeHandle_append _ unwatched member, Option.bind_some, readBuffer,
    List.getElem?_concat_length]
  exact if_pos (List.length_pos_of_mem member)

/-- A send leaves what is outstanding for the other clients. -/
theorem outstanding_onClientWriteable (referenced : loop.Referenced) {number : Nat}
    {handle : WriteHandle} (stored : loop.handles[number]? = some handle)
    (active : handle.active = true) (sent : Bool) (elsewhere : handle.fd ≠ fd) :
    (loop.onClientWriteable number handle sent).outstanding fd = loop.outstanding fd := by
  rw [referenced.outstanding_eq, (referenced.onClientWriteable stored active sent).outstanding_eq]
  change (activeHandle (loop.handles.set number _) fd).bind (fun other =>
    ((unref loop.buffers handle.buffer)[other.buffer]?).map _) = _
  rw [activeHandle_set stored elsewhere rfl]
  congr 1
  funext other
  rw [unref, List.getElem?_modify]
  cases loop.buffers[other.buffer]? with
  | none => rfl
  | some buffer =>
      by_cases same : handle.buffer = other.buffer <;> simp [same]

end LoopState

namespace Tracks

variable {ledger : Ledger} {loop : LoopState δ} {number : Nat} {handle : WriteHandle}

/-- An active handle belongs to a stored client. -/
theorem mem_stored (tracks : Tracks ledger loop) (stored : loop.handles[number]? = some handle)
    (active : handle.active = true) : handle.fd ∈ loop.table.stored := by
  have watched := mem_watchedFds (List.mem_of_getElem? stored) active
  rw [tracks.clients.mem_iff]
  exact tracks.pending _ (tracks.sends.mem_iff.mp watched)

/-- A send to one client keeps the others in the table. -/
theorem stored_onClientWriteable (tracks : Tracks ledger loop)
    (stored : loop.handles[number]? = some handle) (active : handle.active = true) (sent : Bool)
    {fd : Int} (elsewhere : handle.fd ≠ fd) :
    fd ∈ (loop.onClientWriteable number handle sent).table.stored ↔ fd ∈ loop.table.stored := by
  have valid := (mem_occupied.mp (tracks.mem_stored stored active)).2
  cases sent with
  | true => rfl
  | false =>
      change fd ∈ (loop.table.removeClient handle.fd).stored ↔ _
      rw [removeClient_stored valid, List.mem_erase_of_ne elsewhere.symm]

/-- A client whose send has failed is no client any more. -/
theorem absent_of_failed (tracks : Tracks ledger loop)
    (stored : loop.handles[number]? = some handle) (active : handle.active = true) :
    handle.fd ∉ (loop.onClientWriteable number handle false).table.stored := by
  have valid := (mem_occupied.mp (tracks.mem_stored stored active)).2
  change handle.fd ∉ (loop.table.removeClient handle.fd).stored
  rw [removeClient_stored valid]
  exact tracks.isSet.distinct.not_mem_erase

/-- A client gets no second send for one document. -/
theorem unwatched_onClientWriteable (tracks : Tracks ledger loop)
    (stored : loop.handles[number]? = some handle) (active : handle.active = true) (sent : Bool) :
    handle.fd ∉ watchedFds (loop.onClientWriteable number handle sent).handles := by
  have stopped : (watchedFds loop.handles).Perm (handle.fd ::
      watchedFds (loop.handles.set number { handle with active := false, closing := true })) :=
    watchedFds_set stored active rfl
  have distinct := stopped.nodup_iff.mp (tracks.sends.nodup_iff.mpr tracks.distinct)
  exact (List.nodup_cons.mp distinct).1

end Tracks

/-- These facts hold while the loop runs. -/
structure Orderly (loop : LoopState δ) : Prop where
  idle : loop.IdleIffQueued
  referenced : loop.Referenced

namespace Orderly

variable {ledger : Ledger} {loop after : LoopState δ}

theorem initial : Orderly (.initial : LoopState δ) :=
  ⟨by simp [IdleIffQueued, LoopState.initial], .initial⟩

theorem step {label : Label δ} (orderly : Orderly loop) (tracks : Tracks ledger loop)
    (settled : ledger.Settled label) (taken : LoopState.step loop label = some after)
    (runs : after.control = .running) : Orderly after := by
  have running := step_running taken
  cases label with
  | fsEvent batch =>
      obtain rfl := step_fsEvent taken
      cases batch with
      | wrongVersion => exact ⟨orderly.idle, orderly.referenced.counted, orderly.referenced.allocated⟩
      | nothing => exact orderly
      | document json =>
          exact ⟨by simp [IdleIffQueued, LoopState.onFsEvent], orderly.referenced.counted,
            orderly.referenced.allocated⟩
  | connection accepted =>
      cases accepted with
      | none =>
          obtain rfl := step_rejected taken
          exact ⟨orderly.idle, orderly.referenced.counted, orderly.referenced.allocated⟩
      | some fd =>
          obtain ⟨_, _, rfl⟩ := step_connection taken
          exact ⟨orderly.idle, orderly.referenced.counted, orderly.referenced.allocated⟩
  | idle =>
      obtain ⟨enabled, rfl⟩ := step_idle taken
      obtain ⟨json, others, waiting⟩ := List.exists_cons_of_ne_nil (orderly.idle.mp enabled)
      have free := tracks.visitsFree settled rfl (orderly.idle.mp enabled)
      refine ⟨?_, orderly.referenced.sendJsons waiting running tracks.isSet free⟩
      rw [IdleIffQueued, sendJsons_eq waiting running tracks.isSet free]
      cases others <;> simp [enabled]
  | writeable fd sent =>
      obtain ⟨number, handle, stored, active, _, rfl⟩ := step_writeable taken
      exact ⟨orderly.idle, orderly.referenced.onClientWriteable stored active sent⟩
  | sigint =>
      obtain rfl := step_sigint taken
      contradiction

/-- A waiting client is sent the message of its active handle. -/
theorem exists_outstanding (orderly : Orderly loop) {fd : Int}
    (watched : fd ∈ watchedFds loop.handles) : ∃ json, loop.outstanding fd = some json := by
  rw [orderly.referenced.outstanding_eq]
  cases found : activeHandle loop.handles fd with
  | none => exact absurd watched (activeHandle_eq_none.mp found)
  | some handle =>
      have member := List.mem_of_find?_eq_some found
      have active := List.find?_some found
      rw [Bool.and_eq_true] at active
      have allocated := orderly.referenced.allocated handle member active.1
      exact ⟨_, by rw [Option.bind_some, List.getElem?_eq_getElem allocated, Option.map_some]⟩

/-- One step moves a document to a client from its outstanding send, and it moves a popped document
to the outstanding sends. -/
theorem served_step {label : Label δ} {fd : Int} (orderly : Orderly loop)
    (tracks : Tracks ledger loop) (settled : ledger.Settled label)
    (taken : LoopState.step loop label = some after) (runs : after.control = .running)
    (member : fd ∈ loop.table.stored) (unfailed : label ≠ .writeable fd false) :
    fd ∈ after.table.stored ∧
      (loop.outstanding fd).toList ++ (poppedAt (loop, label)).toList =
        (sentAt fd (loop, label)).toList ++ (after.outstanding fd).toList := by
  have running := step_running taken
  cases label with
  | fsEvent batch =>
      obtain rfl := step_fsEvent taken
      cases batch <;> exact ⟨member, List.append_nil _⟩
  | connection accepted =>
      cases accepted with
      | none =>
          obtain rfl := step_rejected taken
          exact ⟨member, List.append_nil _⟩
      | some new =>
          obtain ⟨valid, _, rfl⟩ := step_connection taken
          have used : new ≠ -1 := by omega
          refine ⟨?_, List.append_nil _⟩
          rw [(addClient_stored tracks.isSet used).mem_iff]
          exact List.mem_cons_of_mem _ member
  | idle =>
      obtain ⟨enabled, rfl⟩ := step_idle taken
      have queued := orderly.idle.mp enabled
      obtain ⟨json, others, waiting⟩ := List.exists_cons_of_ne_nil queued
      have free := tracks.visitsFree settled rfl queued
      have unwatched : fd ∉ watchedFds loop.handles := by
        rw [← watched_iff, free fd member]
        exact Bool.false_ne_true
      refine ⟨by rw [sendJsons_eq waiting running tracks.isSet free]; exact member, ?_⟩
      rw [outstanding_of_unwatched unwatched,
        outstanding_sendJsons waiting running tracks.isSet free member, poppedAt, waiting]
      rfl
  | writeable client sent =>
      obtain ⟨number, handle, stored, active, rfl, rfl⟩ := step_writeable taken
      by_cases same : handle.fd = fd
      · subst same
        obtain rfl : sent = true := by
          cases sent with
          | true => rfl
          | false => contradiction
        refine ⟨member, ?_⟩
        have unwatched := tracks.unwatched_onClientWriteable stored active true
        rw [outstanding_of_unwatched unwatched, sentAt]
        simp [poppedAt]
      · refine ⟨(tracks.stored_onClientWriteable stored active sent same).mpr member, ?_⟩
        rw [outstanding_onClientWriteable orderly.referenced stored active sent same, sentAt]
        simp [same, poppedAt]
  | sigint =>
      obtain rfl := step_sigint taken
      contradiction

end Orderly

variable {past later earlier front behind : List (LoopState δ × Label δ)} {last : LoopState δ}
  {fd : Int}

/-- A run with settled sends keeps its order while the loop runs. -/
theorem orderly_of_settled (run : Run LoopState.system past last)
    (settled : SendsSettled (past.map Prod.snd)) (runs : last.control = .running) : Orderly last := by
  induction run with
  | start begins =>
      obtain rfl : _ = LoopState.initial := begins
      exact .initial
  | next earlier taken ih =>
      obtain ⟨here, before⟩ := settled
      have tracks := (harmless_of_settled earlier before).1
      exact (ih before (step_running taken)).step tracks here taken runs

theorem SendsSettled.tail {taken : LoopState δ × Label δ}
    (settled : SendsSettled ((later ++ taken :: earlier).map Prod.snd)) :
    SendsSettled (earlier.map Prod.snd) := by
  induction later with
  | nil => exact settled.2
  | cons _ later ih => exact ih settled.2

/-- Documents leave the queue in the order in which they came. -/
theorem pushed_eq_popped (run : Run LoopState.system past last)
    (settled : SendsSettled (past.map Prod.snd)) :
    observed pushedAt past = observed poppedAt past ++ last.jsonQueue := by
  induction run with
  | start begins =>
      obtain rfl : _ = LoopState.initial := begins
      rfl
  | @next past loop after label earlier taken ih =>
      obtain ⟨here, before⟩ := settled
      have running := step_running taken
      have tracks := (harmless_of_settled earlier before).1
      have orderly := orderly_of_settled earlier before running
      rw [observed_cons, observed_cons, ih before, List.append_assoc, List.append_assoc]
      congr 1
      change LoopState.step loop label = some after at taken
      cases label with
      | fsEvent batch =>
          obtain rfl := step_fsEvent taken
          cases batch <;> simp [pushedAt, poppedAt, LoopState.onFsEvent, terminate]
      | connection accepted =>
          cases accepted with
          | none =>
              obtain rfl := step_rejected taken
              simp [pushedAt, poppedAt, terminate]
          | some fd =>
              obtain ⟨_, _, rfl⟩ := step_connection taken
              simp [pushedAt, poppedAt]
      | idle =>
          obtain ⟨enabled, rfl⟩ := step_idle taken
          have queued := orderly.idle.mp enabled
          obtain ⟨json, others, waiting⟩ := List.exists_cons_of_ne_nil queued
          rw [sendJsons_eq waiting running tracks.isSet (tracks.visitsFree here rfl queued)]
          simp [pushedAt, poppedAt, waiting]
      | writeable fd sent =>
          obtain ⟨number, handle, _, _, _, rfl⟩ := step_writeable taken
          simp [pushedAt, poppedAt, LoopState.onClientWriteable]
      | sigint =>
          obtain rfl := step_sigint taken
          simp [pushedAt, poppedAt, LoopState.openHandles]

/-- Each document that is popped while a client is connected is sent to it or outstanding. -/
theorem served_of_connected (before : LoopState δ)
    (run : Run LoopState.system (later ++ (before, .connection (some fd)) :: earlier) last)
    (settled : SendsSettled ((later ++ (before, .connection (some fd)) :: earlier).map Prod.snd))
    (runs : last.control = .running) (unfailed : ∀ taken ∈ later, taken.2 ≠ .writeable fd false) :
    fd ∈ last.table.stored ∧
      observed poppedAt later = observed (sentAt fd) later ++ (last.outstanding fd).toList := by
  induction later generalizing last with
  | nil =>
      obtain ⟨ran, taken⟩ := run.uncons
      have tracks := (harmless_of_settled ran settled.2).1
      obtain ⟨valid, absent, rfl⟩ := step_connection taken
      have used : fd ≠ -1 := by omega
      have unwatched : fd ∉ watchedFds before.handles := by
        rw [tracks.sends.mem_iff]
        intro owed
        have stored := tracks.clients.mem_iff.mpr (tracks.pending fd owed)
        exact absent (mem_occupied.mp stored).1
      have silent : LoopState.outstanding { before with table := before.table.addClient fd } fd = none :=
        outstanding_of_unwatched unwatched
      refine ⟨(addClient_stored tracks.isSet used).mem_iff.mpr List.mem_cons_self, ?_⟩
      rw [silent]
      rfl
  | cons taken later ih =>
      obtain ⟨loop, label⟩ := taken
      obtain ⟨ran, moved⟩ := run.uncons
      obtain ⟨here, settledBefore⟩ := settled
      have running := step_running moved
      have tracks := (harmless_of_settled ran settledBefore).1
      have orderly := orderly_of_settled ran settledBefore running
      obtain ⟨stored, served⟩ := ih ran settledBefore running
        fun taken member => unfailed taken (List.mem_cons_of_mem _ member)
      obtain ⟨kept, same⟩ := orderly.served_step tracks here moved runs stored
        (unfailed _ List.mem_cons_self)
      refine ⟨kept, ?_⟩
      rw [observed_cons, observed_cons, served, List.append_assoc, same, List.append_assoc]

/-- A step brings a client back only with a new connection, and nothing is sent to it before. -/
theorem unsent_step {ledger : Ledger} {loop after : LoopState δ} {label : Label δ}
    (tracks : Tracks ledger loop) (settled : ledger.Settled label)
    (taken : LoopState.step loop label = some after) (absent : fd ∉ loop.table.stored)
    (other : label ≠ .connection (some fd)) :
    fd ∉ after.table.stored ∧ sentAt fd (loop, label) = none := by
  have kept := (tracks.step settled taken).1
  have gone : fd ∉ ledger.connected := fun member => absent (tracks.clients.mem_iff.mpr member)
  rw [kept.clients.mem_iff]
  cases label with
  | fsEvent batch => cases batch <;> exact ⟨gone, rfl⟩
  | connection accepted =>
      cases accepted with
      | none => exact ⟨gone, rfl⟩
      | some new =>
          have different : fd ≠ new := fun same => other (by rw [same])
          exact ⟨List.not_mem_cons_of_ne_of_not_mem different gone, rfl⟩
  | idle =>
      refine ⟨?_, rfl⟩
      rw [Ledger.next]
      split <;> exact gone
  | writeable client sent =>
      obtain ⟨number, handle, stored, active, rfl, _⟩ := step_writeable taken
      have different : handle.fd ≠ fd := by
        rintro rfl
        exact absent (tracks.mem_stored stored active)
      refine ⟨?_, by simp [sentAt, different]⟩
      cases sent with
      | true => exact gone
      | false => exact fun member => gone (List.mem_of_mem_erase member)
  | sigint => exact ⟨gone, rfl⟩

/-- Nothing is sent to a descriptor between a failed send and its next connection. -/
theorem unsent_of_failed (state : LoopState δ)
    (run : Run LoopState.system (behind ++ (state, .writeable fd false) :: earlier) last)
    (settled : SendsSettled ((behind ++ (state, .writeable fd false) :: earlier).map Prod.snd))
    (unconnected : ∀ taken ∈ behind, taken.2 ≠ .connection (some fd)) :
    fd ∉ last.table.stored ∧ observed (sentAt fd) behind = [] := by
  induction behind generalizing last with
  | nil =>
      obtain ⟨ran, taken⟩ := run.uncons
      have tracks := (harmless_of_settled ran settled.2).1
      obtain ⟨number, handle, stored, active, rfl, rfl⟩ := step_writeable taken
      exact ⟨tracks.absent_of_failed stored active, rfl⟩
  | cons taken behind ih =>
      obtain ⟨loop, label⟩ := taken
      obtain ⟨ran, moved⟩ := run.uncons
      obtain ⟨here, before⟩ := settled
      have tracks := (harmless_of_settled ran before).1
      obtain ⟨absent, unsent⟩ := ih ran before
        fun taken member => unconnected taken (List.mem_cons_of_mem _ member)
      obtain ⟨gone, silent⟩ := unsent_step tracks here moved absent
        (unconnected _ List.mem_cons_self)
      exact ⟨gone, by rw [observed_cons, unsent, silent]; rfl⟩

/-- While its sends succeed, a client gets every popped document but the outstanding one. A failed
send ends this with the outstanding document, and nothing is sent before the next connection. -/
def ServedSince (fd : Int) (later : List (LoopState δ × Label δ)) (last : LoopState δ) : Prop :=
  ((∀ taken ∈ later, taken.2 ≠ .writeable fd false) → last.control = .running →
    observed poppedAt later = observed (sentAt fd) later ++ (last.outstanding fd).toList) ∧
  ∀ behind state front, later = behind ++ (state, .writeable fd false) :: front →
    (∀ taken ∈ front, taken.2 ≠ .writeable fd false) →
    ∃ failed, state.outstanding fd = some failed ∧
      observed poppedAt front = observed (sentAt fd) front ++ [failed] ∧
      ((∀ taken ∈ behind, taken.2 ≠ .connection (some fd)) → observed (sentAt fd) behind = [])

/-- A failed send closes one client, and the others and the queue stay as they are. -/
def ClosesOnly (fd : Int) (loop after : LoopState δ) : Prop :=
  (∀ other ≠ fd, (other ∈ after.table.stored ↔ other ∈ loop.table.stored) ∧
    after.outstanding other = loop.outstanding other) ∧
  after.jsonQueue = loop.jsonQueue ∧ after.idleActive = loop.idleActive ∧
  after.exitCode = loop.exitCode ∧ after.control = loop.control

theorem servedSince (before : LoopState δ)
    (run : Run LoopState.system (later ++ (before, .connection (some fd)) :: earlier) last)
    (settled : SendsSettled ((later ++ (before, .connection (some fd)) :: earlier).map Prod.snd)) :
    ServedSince fd later last := by
  constructor
  · intro unfailed runs
    exact (served_of_connected before run settled runs unfailed).2
  · rintro behind state front rfl unfailed
    rw [List.append_assoc, List.cons_append] at run settled
    obtain ⟨after, ran, taken⟩ := run.split
    change LoopState.step state (.writeable fd false) = some after at taken
    have running := step_running taken
    have tracks := (harmless_of_settled ran settled.tail).1
    have orderly := orderly_of_settled ran settled.tail running
    obtain ⟨number, handle, stored, active, same, _⟩ := step_writeable taken
    obtain ⟨failed, waiting⟩ := orderly.exists_outstanding
      (same ▸ mem_watchedFds (List.mem_of_getElem? stored) active)
    have served := (served_of_connected before ran settled.tail running unfailed).2
    rw [waiting] at served
    exact ⟨failed, waiting, served, fun unconnected =>
      (unsent_of_failed state run settled unconnected).2⟩

/-- A failed send of a run closes only its client. -/
theorem closesOnly (loop : LoopState δ)
    (run : Run LoopState.system (behind ++ (loop, .writeable fd false) :: front) last)
    (settled : SendsSettled ((behind ++ (loop, .writeable fd false) :: front).map Prod.snd)) :
    ∃ after, LoopState.step loop (.writeable fd false) = some after ∧ ClosesOnly fd loop after := by
  obtain ⟨after, ran, taken⟩ := run.split
  change LoopState.step loop (.writeable fd false) = some after at taken
  have tracks := (harmless_of_settled ran settled.tail).1
  have orderly := orderly_of_settled ran settled.tail (step_running taken)
  refine ⟨after, taken, ?_⟩
  obtain ⟨number, handle, stored, active, rfl, rfl⟩ := step_writeable taken
  refine ⟨?_, rfl, rfl, rfl, rfl⟩
  intro other different
  exact ⟨tracks.stored_onClientWriteable stored active false different.symm,
    outstanding_onClientWriteable orderly.referenced stored active false different.symm⟩

/-- In a run with settled sends, a queued document is never stranded, documents are popped in order,
each client gets exactly what is popped while it is connected, and a failed send hurts no other. -/
theorem every_client_served (run : Run LoopState.system past last)
    (settled : SendsSettled (past.map Prod.snd)) :
    (last.control = .running → last.IdleIffQueued) ∧
      observed pushedAt past = observed poppedAt past ++ last.jsonQueue ∧
      (∀ fd later before earlier, past = later ++ (before, .connection (some fd)) :: earlier →
        ServedSince fd later last) ∧
      ∀ fd behind loop front, past = behind ++ (loop, .writeable fd false) :: front →
        ∃ after, LoopState.step loop (.writeable fd false) = some after ∧ ClosesOnly fd loop after := by
  refine ⟨fun runs => (orderly_of_settled run settled runs).idle, pushed_eq_popped run settled, ?_, ?_⟩
  · rintro fd later before earlier rfl
    exact servedSince before run settled
  · rintro fd behind loop front rfl
    exact closesOnly loop run settled

/-- A second client gets both documents although the send to the first one fails. -/
theorem second_client_served : ∃ past last, Run (LoopState.system : System (LoopState Nat) _) past last ∧
    observed (sentAt 7) past = [1] ∧ observed (sentAt 8) past = [1, 2] ∧
    observed pushedAt past = observed poppedAt past ++ last.jsonQueue := by
  have begins : Run (LoopState.system : System (LoopState Nat) _) [] .initial := .start rfl
  have run := begins.follow [.connection (some 7), .connection (some 8), .fsEvent (.document 1), .idle,
    .fsEvent (.document 2), .writeable 8 true, .writeable 7 true, .idle, .writeable 7 false,
    .writeable 8 true] rfl
  exact ⟨_, _, run, rfl, rfl, (every_client_served run (by decide)).2.1⟩

end ClamavDbscan.Watcher
