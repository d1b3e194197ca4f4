import ClamavDbscan.Proof.Watcher.ClientTable

/-
This file decides when a slow client makes the broadcast of the C watcher abort.
-/

namespace ClamavDbscan.Watcher

variable {δ : Type}

open ClientTable LoopState Transition

/-- The history of the callbacks determines the queue, the clients and the sends they wait for. -/
structure Ledger where
  queued : Nat
  connected : List Int
  owed : List Int
  deriving DecidableEq

namespace Ledger

/-- A broadcast owes its document to every client until the client is writable once. -/
def next (ledger : Ledger) : Label δ → Ledger
  | .fsEvent (.document _) => { ledger with queued := ledger.queued + 1 }
  | .fsEvent _ => ledger
  | .connection (some fd) => { ledger with connected := fd :: ledger.connected }
  | .connection none => ledger
  | .idle =>
      if ledger.queued = 0 then ledger
      else { ledger with queued := ledger.queued - 1, owed := ledger.owed ++ ledger.connected }
  | .writeable fd sent =>
      { ledger with
        owed := ledger.owed.erase fd
        connected := if sent then ledger.connected else ledger.connected.erase fd }
  | .sigint => { ledger with owed := [] }

/-- The labels come newest first. -/
def after : List (Label δ) → Ledger
  | [] => ⟨0, [], []⟩
  | label :: earlier => (after earlier).next label

/-- No broadcast starts while an earlier one still owes its document to a client. -/
def Settled (ledger : Ledger) (label : Label δ) : Prop :=
  label = .idle → 0 < ledger.queued → ledger.owed = []

instance [DecidableEq δ] (ledger : Ledger) (label : Label δ) : Decidable (ledger.Settled label) :=
  inferInstanceAs (Decidable (label = .idle → 0 < ledger.queued → ledger.owed = []))

end Ledger

/-- Each broadcast of the run starts after every earlier send has called back. -/
def SendsSettled : List (Label δ) → Prop
  | [] => True
  | label :: earlier => (Ledger.after earlier).Settled label ∧ SendsSettled earlier

namespace LoopState

variable {loop after : LoopState δ}

/-- No active handle watches a client that the idle callback visits. -/
def VisitsFree (loop : LoopState δ) (label : Label δ) : Prop :=
  label = .idle → loop.jsonQueue ≠ [] → ∀ fd ∈ loop.table.stored, loop.watched fd = false

def watchedFds (handles : List WriteHandle) : List Int :=
  (handles.filter (·.active)).map (·.fd)

theorem watched_iff (loop : LoopState δ) (fd : Int) :
    loop.watched fd = true ↔ fd ∈ watchedFds loop.handles := by
  simp [watched, watchedFds, and_assoc]

@[simp] theorem watchedFds_append (front back : List WriteHandle) :
    watchedFds (front ++ back) = watchedFds front ++ watchedFds back := by
  simp [watchedFds]

@[simp] theorem watchedFds_new (buffer : Nat) (fds : List Int) :
    watchedFds (fds.map fun fd => ⟨fd, buffer, true, false⟩) = fds := by
  induction fds with
  | nil => rfl
  | cons fd others ih =>
      simp only [watchedFds, List.map_cons, List.filter_cons, if_true] at ih ⊢
      rw [ih]

@[simp] theorem watchedFds_closed (handles : List WriteHandle) :
    watchedFds (handles.map fun handle => { handle with active := false, closing := true }) = [] := by
  simp [watchedFds]

/-- Replacing a chosen entry by one that is not chosen takes it from the list. -/
theorem map_filter_set {α β : Type} {chosen : α → Bool} (value : α → β) {list : List α} {number : Nat}
    {entry next : α} (stored : list[number]? = some entry) (before : chosen entry = true)
    (after : chosen next = false) :
    ((list.filter chosen).map value).Perm
      (value entry :: ((list.set number next).filter chosen).map value) := by
  induction list generalizing number with
  | nil => contradiction
  | cons first others ih =>
      cases number with
      | zero =>
          obtain rfl := Option.some.inj stored
          simp [before, after]
      | succ number =>
          have rest := ih stored
          cases kept : chosen first with
          | false => simpa [kept] using rest
          | true =>
              have moved := (rest.cons (value first)).trans (List.Perm.swap (value entry) (value first) _)
              simpa [kept] using moved

/-- Closing one active handle stops the watch on its descriptor. -/
theorem watchedFds_set {handles : List WriteHandle} {number : Nat} {handle closed : WriteHandle}
    (stored : handles[number]? = some handle) (active : handle.active = true)
    (stopped : closed.active = false) :
    (watchedFds handles).Perm (handle.fd :: watchedFds (handles.set number closed)) :=
  map_filter_set WriteHandle.fd stored active stopped

/-- A free slot costs the traversal no client. -/
theorem prepare_free (buffer count : Nat) (others : List Int) (loop : LoopState δ) :
    prepare buffer count (-1 :: others) loop = prepare buffer count others loop := by
  cases count with
  | zero => cases others <;> rfl
  | succ count => rfl

/-- The traversal gives one handle to each stored client if none of them is watched. -/
theorem prepare_eq {buffer : Nat} {slots : List Int} (loop : LoopState δ)
    (distinct : (occupied slots).Nodup) (free : ∀ fd ∈ occupied slots, loop.watched fd = false) :
    prepare buffer (occupied slots).length slots loop =
      { loop with
        handles := loop.handles ++ (occupied slots).map fun fd => ⟨fd, buffer, true, false⟩
        buffers := (occupied slots).foldl (fun buffers _ => ref buffers buffer) loop.buffers } := by
  induction slots generalizing loop with
  | nil => simp [occupied, prepare]
  | cons slot others ih =>
      by_cases empty : slot = -1
      · subst empty
        rw [prepare_free]
        exact ih loop distinct free
      · rw [occupied_cons empty] at distinct free ⊢
        obtain ⟨absent, rest⟩ := List.nodup_cons.mp distinct
        rw [List.length_cons, prepare, if_neg empty, free slot (by simp), if_neg Bool.false_ne_true,
          ih _ rest]
        · simp
        · intro fd member
          have other : slot ≠ fd := fun same => absent (same ▸ member)
          have before := free fd (by simp [member])
          simp only [watched] at before ⊢
          simp [before, other]

/-- A broadcast that collides with no handle pops one document and watches every client. -/
theorem sendJsons_eq {json : δ} {others : List δ} (waiting : loop.jsonQueue = json :: others)
    (running : loop.control = .running) (isSet : loop.table.IsSet)
    (free : ∀ fd ∈ loop.table.stored, loop.watched fd = false) :
    loop.sendJsons =
      { loop with
        jsonQueue := others
        idleActive := if others.isEmpty then false else loop.idleActive
        handles := loop.handles ++
          loop.table.stored.map fun fd => ⟨fd, loop.buffers.length, true, false⟩
        buffers := unref (loop.table.stored.foldl
          (fun buffers _ => ref buffers loop.buffers.length) (loop.buffers ++ [⟨json, 1⟩]))
          loop.buffers.length } := by
  simp only [sendJsons, waiting, isSet.counted, stored]
  rw [prepare_eq { loop with jsonQueue := others, buffers := loop.buffers ++ [⟨json, 1⟩] }
    isSet.distinct free, if_pos running]

theorem step_running {label : Label δ} (taken : step loop label = some after) :
    loop.control = .running := by
  by_contra stopped
  unfold step at taken
  rw [if_neg stopped] at taken
  contradiction

theorem step_fsEvent {batch : FsBatch δ} (taken : step loop (.fsEvent batch) = some after) :
    after = loop.onFsEvent batch := by
  have running := step_running taken
  rw [step, if_pos running] at taken
  exact (Option.some.inj taken).symm

theorem step_rejected (taken : step loop (.connection none) = some after) :
    after = loop.terminate 1 := by
  have running := step_running taken
  rw [step, if_pos running] at taken
  exact (Option.some.inj taken).symm

theorem step_connection {fd : Int} (taken : step loop (.connection (some fd)) = some after) :
    0 ≤ fd ∧ fd ∉ loop.table.clients ∧ after = { loop with table := loop.table.addClient fd } := by
  have running := step_running taken
  rw [step, if_pos running] at taken
  obtain ⟨⟨valid, absent⟩, same⟩ := Option.ite_none_right_eq_some.mp taken
  exact ⟨valid, absent, (Option.some.inj same).symm⟩

theorem step_idle (taken : step loop .idle = some after) :
    loop.idleActive = true ∧ after = loop.sendJsons := by
  have running := step_running taken
  rw [step, if_pos running] at taken
  obtain ⟨enabled, same⟩ := Option.ite_none_right_eq_some.mp taken
  exact ⟨enabled.1, (Option.some.inj same).symm⟩

theorem step_sigint (taken : step loop .sigint = some after) : after = loop.openHandles := by
  have running := step_running taken
  rw [step, if_pos running] at taken
  exact (Option.some.inj taken).symm

/-- A writability callback belongs to one active handle of its client. -/
theorem step_writeable {fd : Int} {sent : Bool}
    (taken : step loop (.writeable fd sent) = some after) :
    ∃ number handle, loop.handles[number]? = some handle ∧ handle.active = true ∧
      handle.fd = fd ∧ after = loop.onClientWriteable number handle sent := by
  have running := step_running taken
  rw [step, if_pos running] at taken
  cases found : loop.handles.findIdx? fun handle => handle.active && handle.fd == fd with
  | none =>
      rw [found] at taken
      contradiction
  | some number =>
      simp only [found, Option.map_eq_some_iff] at taken
      obtain ⟨handle, stored, rfl⟩ := taken
      obtain ⟨inside, chosen, _⟩ := List.findIdx?_eq_some_iff_getElem.mp found
      rw [List.getElem?_eq_getElem inside, Option.some_inj] at stored
      rw [stored, Bool.and_eq_true, beq_iff_eq] at chosen
      exact ⟨number, handle, by rw [List.getElem?_eq_getElem inside, stored], chosen.1, chosen.2, rfl⟩

end LoopState

/-- The loop holds the queue, the clients and the waiting sends of the history. -/
structure Tracks (ledger : Ledger) (loop : LoopState δ) : Prop where
  queue : loop.jsonQueue.length = ledger.queued
  isSet : loop.table.IsSet
  clients : loop.table.stored.Perm ledger.connected
  sends : (watchedFds loop.handles).Perm ledger.owed
  distinct : ledger.owed.Nodup
  pending : ∀ fd ∈ ledger.owed, fd ∈ ledger.connected

namespace Tracks

variable {ledger : Ledger} {loop after : LoopState δ}

theorem initial : Tracks (Ledger.after ([] : List (Label δ))) (.initial : LoopState δ) :=
  ⟨rfl, .initial, .refl _, .refl _, List.nodup_nil, fun _ member => member⟩

theorem watched_iff_owed (tracks : Tracks ledger loop) (fd : Int) :
    loop.watched fd = true ↔ fd ∈ ledger.owed := by
  rw [watched_iff, tracks.sends.mem_iff]

theorem onFsEvent (tracks : Tracks ledger loop) (batch : FsBatch δ) :
    Tracks (ledger.next (.fsEvent batch)) (loop.onFsEvent batch) := by
  cases batch with
  | wrongVersion => exact ⟨tracks.queue, tracks.isSet, tracks.clients, tracks.sends, tracks.distinct, tracks.pending⟩
  | nothing => exact tracks
  | document json =>
      refine ⟨?_, tracks.isSet, tracks.clients, tracks.sends, tracks.distinct, tracks.pending⟩
      change (loop.jsonQueue ++ [json]).length = ledger.queued + 1
      rw [List.length_append, tracks.queue, List.length_singleton]

theorem addClient (tracks : Tracks ledger loop) {fd : Int} (valid : 0 ≤ fd)
    (absent : fd ∉ loop.table.clients) :
    Tracks (ledger.next (.connection (some fd) : Label δ))
      { loop with table := loop.table.addClient fd } := by
  have used : fd ≠ -1 := by omega
  have fresh : fd ∉ loop.table.stored := fun member => absent (mem_occupied.mp member).1
  exact ⟨tracks.queue, tracks.isSet.addClient used fresh,
    (addClient_stored tracks.isSet used).trans (tracks.clients.cons fd), tracks.sends,
    tracks.distinct, fun other member => List.mem_cons_of_mem _ (tracks.pending other member)⟩

/-- A broadcast with settled sends owes one document to each client. -/
theorem sendJsons (tracks : Tracks ledger loop) (running : loop.control = .running)
    (settled : ledger.Settled (.idle : Label δ)) :
    Tracks (ledger.next (.idle : Label δ)) loop.sendJsons ∧ loop.sendJsons.control = .running := by
  cases waiting : loop.jsonQueue with
  | nil =>
      have empty : ledger.queued = 0 := by rw [← tracks.queue, waiting, List.length_nil]
      rw [LoopState.sendJsons, waiting, Ledger.next, if_pos empty]
      exact ⟨tracks, running⟩
  | cons json others =>
      have queued : ledger.queued = others.length + 1 := by
        rw [← tracks.queue, waiting, List.length_cons]
      have none : ledger.owed = [] := settled rfl (by omega)
      have free (fd : Int) : loop.watched fd = false := by
        rw [Bool.eq_false_iff, Ne, tracks.watched_iff_owed, none]
        exact List.not_mem_nil
      rw [sendJsons_eq waiting running tracks.isSet fun fd _ => free fd, Ledger.next,
        if_neg (by omega), none]
      refine ⟨⟨?_, tracks.isSet, tracks.clients, ?_, ?_, fun fd member => member⟩, running⟩
      · change others.length = ledger.queued - 1
        omega
      · have before := tracks.sends
        rw [none, List.perm_nil] at before
        rw [watchedFds_append, before, watchedFds_new]
        exact tracks.clients
      · exact tracks.clients.nodup_iff.mp tracks.isSet.distinct

theorem onClientWriteable (tracks : Tracks ledger loop) {number : Nat} {handle : WriteHandle}
    (stored : loop.handles[number]? = some handle) (active : handle.active = true) (sent : Bool) :
    Tracks (ledger.next (.writeable handle.fd sent : Label δ))
      (loop.onClientWriteable number handle sent) := by
  have stopped : (watchedFds loop.handles).Perm (handle.fd ::
      watchedFds (loop.handles.set number { handle with active := false, closing := true })) :=
    watchedFds_set stored active rfl
  have sends := List.cons_perm_iff_perm_erase.mp (stopped.symm.trans tracks.sends)
  have member := tracks.clients.mem_iff.mpr (tracks.pending handle.fd sends.1)
  have valid := (mem_occupied.mp member).2
  have rest (fd : Int) (left : fd ∈ ledger.owed.erase handle.fd) :
      fd ≠ handle.fd ∧ fd ∈ ledger.connected := by
    obtain ⟨other, owed⟩ := tracks.distinct.mem_erase_iff.mp left
    exact ⟨other, tracks.pending fd owed⟩
  cases sent with
  | true =>
      exact ⟨tracks.queue, tracks.isSet, tracks.clients, sends.2, tracks.distinct.erase _,
        fun fd left => (rest fd left).2⟩
  | false =>
      refine ⟨tracks.queue, tracks.isSet.removeClient member, ?_, sends.2, tracks.distinct.erase _,
        fun fd left => (List.mem_erase_of_ne (rest fd left).1).mpr (rest fd left).2⟩
      change (loop.table.removeClient handle.fd).stored.Perm (ledger.connected.erase handle.fd)
      rw [removeClient_stored valid]
      exact tracks.clients.erase handle.fd

theorem openHandles (tracks : Tracks ledger loop) :
    Tracks (ledger.next (.sigint : Label δ)) loop.openHandles := by
  refine ⟨tracks.queue, tracks.isSet, tracks.clients, ?_, List.nodup_nil, by simp [Ledger.next]⟩
  simp [LoopState.openHandles, Ledger.next]

/-- Every step with settled sends keeps the history, and the loop does not abort. -/
theorem step {label : Label δ} (tracks : Tracks ledger loop) (settled : ledger.Settled label)
    (taken : LoopState.step loop label = some after) :
    Tracks (ledger.next label) after ∧ after.control ≠ .aborted := by
  have running := step_running taken
  cases label with
  | fsEvent batch =>
      obtain rfl := step_fsEvent taken
      refine ⟨tracks.onFsEvent batch, ?_⟩
      cases batch <;> simp [LoopState.onFsEvent, terminate, running]
  | connection accepted =>
      cases accepted with
      | none =>
          obtain rfl := step_rejected taken
          exact ⟨tracks.onFsEvent .wrongVersion, by simp [terminate, running]⟩
      | some fd =>
          obtain ⟨valid, absent, rfl⟩ := step_connection taken
          exact ⟨tracks.addClient valid absent, by simp [running]⟩
  | idle =>
      obtain ⟨_, rfl⟩ := step_idle taken
      obtain ⟨kept, still⟩ := tracks.sendJsons running settled
      exact ⟨kept, by simp [still]⟩
  | writeable fd sent =>
      obtain ⟨number, handle, stored, active, rfl, rfl⟩ := step_writeable taken
      exact ⟨tracks.onClientWriteable stored active sent, by simp [LoopState.onClientWriteable, running]⟩
  | sigint =>
      obtain rfl := step_sigint taken
      exact ⟨tracks.openHandles, by simp [LoopState.openHandles]⟩

/-- A settled broadcast visits no client that an active handle watches. -/
theorem visitsFree {label : Label δ} (tracks : Tracks ledger loop)
    (settled : ledger.Settled label) : loop.VisitsFree label := by
  intro idle waiting fd _
  have queued : 0 < ledger.queued := by
    rw [← tracks.queue]
    exact List.length_pos_iff.mpr waiting
  rw [Bool.eq_false_iff, Ne, tracks.watched_iff_owed, settled idle queued]
  exact List.not_mem_nil

/-- A broadcast that visits only free clients finds every earlier send called back. -/
theorem settled {label : Label δ} (tracks : Tracks ledger loop) (free : loop.VisitsFree label) :
    ledger.Settled label := by
  intro idle queued
  have waiting : loop.jsonQueue ≠ [] := by
    rw [← List.length_pos_iff, tracks.queue]
    exact queued
  apply List.eq_nil_iff_forall_not_mem.mpr
  intro fd owed
  have member := tracks.clients.mem_iff.mpr (tracks.pending fd owed)
  have watched := (tracks.watched_iff_owed fd).mpr owed
  rw [free idle waiting fd member] at watched
  contradiction

end Tracks

variable {past : List (LoopState δ × Label δ)} {last : LoopState δ}

/-- No broadcast visits a watched client, and no state of the run is aborted. -/
def SlowClientsHarmless (past : List (LoopState δ × Label δ)) (last : LoopState δ) : Prop :=
  Meets VisitsFree past ∧ Throughout (fun loop => loop.control ≠ .aborted) past last

/-- A run with settled sends follows its history and never aborts. -/
theorem harmless_of_settled (run : Run LoopState.system past last)
    (settled : SendsSettled (past.map Prod.snd)) :
    Tracks (Ledger.after (past.map Prod.snd)) last ∧ SlowClientsHarmless past last := by
  induction run with
  | start begins =>
      obtain rfl : _ = LoopState.initial := begins
      exact ⟨.initial, meets_nil _, by simp [Throughout, LoopState.initial]⟩
  | @next past loop after label earlier taken ih =>
      obtain ⟨here, before⟩ := settled
      obtain ⟨tracks, free, alive⟩ := ih before
      obtain ⟨kept, still⟩ := tracks.step here taken
      exact ⟨kept, (meets_cons _ _ _).mpr ⟨tracks.visitsFree here, free⟩,
        (throughout_cons _ _ _ _ _).mpr ⟨still, alive⟩⟩

/-- Slow clients are harmless exactly if each broadcast waits for every earlier send. -/
theorem slow_clients_harmless_iff (run : Run LoopState.system past last) :
    SlowClientsHarmless past last ↔ SendsSettled (past.map Prod.snd) := by
  constructor
  · intro harmless
    induction run with
    | start => trivial
    | next earlier taken ih =>
        obtain ⟨free, alive⟩ := harmless
        rw [meets_cons] at free
        rw [throughout_cons] at alive
        have before := ih ⟨free.2, alive.2⟩
        have tracks := (harmless_of_settled earlier before).1
        exact ⟨tracks.settled free.1, before⟩
  · intro settled
    exact (harmless_of_settled run settled).2

instance decidableSendsSettled [DecidableEq δ] :
    (labels : List (Label δ)) → Decidable (SendsSettled labels)
  | [] => isTrue trivial
  | _ :: earlier =>
      have := decidableSendsSettled earlier
      inferInstanceAs (Decidable (_ ∧ SendsSettled earlier))

/-- A client that is writable between two broadcasts gets both documents. -/
theorem prompt_client_harmless : ∃ past last, Run (LoopState.system : System (LoopState Nat) _) past last ∧
    last.buffers = [⟨1, 0⟩, ⟨2, 0⟩] ∧ SlowClientsHarmless past last := by
  have begins : Run (LoopState.system : System (LoopState Nat) _) [] .initial := .start rfl
  have run := begins.follow [.connection (some 7), .fsEvent (.document 1), .idle,
    .fsEvent (.document 2), .writeable 7 true, .idle, .writeable 7 true] rfl
  exact ⟨_, _, run, rfl, (slow_clients_harmless_iff run).mpr (by decide)⟩

/-- A client that stays unwritable for two broadcasts aborts the watcher. -/
theorem slow_client_aborts : ∃ past last, Run (LoopState.system : System (LoopState Nat) _) past last ∧
    last.control = .aborted ∧ ¬ SlowClientsHarmless past last := by
  have begins : Run (LoopState.system : System (LoopState Nat) _) [] .initial := .start rfl
  have run := begins.follow [.connection (some 7), .fsEvent (.document 1), .idle,
    .fsEvent (.document 2), .idle] rfl
  exact ⟨_, _, run, rfl, fun harmless => harmless.2.1 rfl⟩

end ClamavDbscan.Watcher
