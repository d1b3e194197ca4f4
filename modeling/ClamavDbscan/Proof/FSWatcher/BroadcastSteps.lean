import ClamavDbscan.Construction.FSWatcher.Broadcast

/-
This file proves what the steps of the Go watcher's goroutines keep.
-/

namespace ClamavDbscan.FSWatcher

open Transition

theorem Message.ch_add (ch : Nat) (kind : Kind) : (add ch kind).ch = ch := by cases kind <;> rfl

theorem Message.ch_remove (ch : Nat) (kind : Kind) : (remove ch kind).ch = ch := by cases kind <;> rfl

theorem Message.add_ne_remove (first second : Nat) (left right : Kind) :
    add first left ≠ remove second right := by
  cases left <;> cases right <;> exact nofun

theorem Message.add_inj {first second : Nat} {left right : Kind}
    (same : add first left = add second right) : first = second ∧ left = right := by
  cases left <;> cases right <;> simp_all [add]

theorem Message.remove_inj {first second : Nat} {left right : Kind}
    (same : remove first left = remove second right) : first = second ∧ left = right := by
  cases left <;> cases right <;> simp_all [remove]

namespace Broadcaster

variable {ε γ : Type}

def keys (state : Broadcaster ε γ) : Kind → List Nat
  | .events => state.subscribers
  | .json => state.jsonSubscribers

def Registered (state : Broadcaster ε γ) (ch : Nat) : Prop :=
  ch ∈ state.subscribers ∨ ch ∈ state.jsonSubscribers

instance (state : Broadcaster ε γ) (ch : Nat) : Decidable (state.Registered ch) :=
  inferInstanceAs (Decidable (_ ∨ _))

def kindAt (state : Broadcaster ε γ) (ch : Nat) : Option Kind :=
  (state.channels[ch]?).map Channel.kind

/-- These payloads have not been received yet. -/
def buffered (state : Broadcaster ε γ) (ch : Nat) : List (Payload ε γ) :=
  match state.channels[ch]? with
  | some channel => channel.buffer
  | none => []

/-- The current batch has not been offered to this subscription yet. -/
def pending (state : Broadcaster ε γ) (ch : Nat) : Option (List ε) :=
  match state.phase with
  | .offering .events events _ left =>
      if ch ∈ left ∨ ch ∈ state.jsonSubscribers then some events else none
  | .offering .json events _ left => if ch ∈ left then some events else none
  | _ => none

/-- This message has been received and not handled. -/
def held (state : Broadcaster ε γ) : List Message :=
  match state.phase with
  | .handling message => [message]
  | _ => []

/-- A batch has one payload for each kind of subscription. -/
def payloadFor (marshal : List ε → Option γ) (kind : Kind) (events : List ε) :
    Option (Payload ε γ) :=
  match kind with
  | .events => some (.events events)
  | .json => (marshal events).map .json

def publishedAt : Broadcaster ε γ × Label ε → Option (List ε)
  | (_, .publish events) => some events
  | _ => none

def fedAt : Broadcaster ε γ × Label ε → Option (List ε)
  | (state, .take) => state.feed
  | _ => none

/-- This batch is taken while the subscription is in its map. -/
def takenAt (ch : Nat) (taken : Broadcaster ε γ × Label ε) : Option (List ε) :=
  (fedAt taken).filter fun events => !events.isEmpty && decide (taken.1.Registered ch)

/-- The batch is offered while the channel holds so many payloads. -/
def offeredAt (ch : Nat) : Broadcaster ε γ × Label ε → Option (List ε × Nat)
  | (state, .offer other) =>
      match state.phase with
      | .offering _ events _ _ =>
          if other = ch then some (events, (state.buffered ch).length) else none
      | _ => none
  | _ => none

/-- An offer is accepted while the channel has room. -/
def accepted (marshal : List ε → Option γ) (kind : Kind) (offered : List ε × Nat) :
    Option (Payload ε γ) :=
  if offered.2 < capacity then payloadFor marshal kind offered.1 else none

def receivedAt (ch : Nat) : Broadcaster ε γ × Label ε → Option (Payload ε γ)
  | (state, .receive other) => if other = ch then (state.buffered ch).head? else none
  | _ => none

def handledAt : Broadcaster ε γ × Label ε → Option Message
  | (state, .handle) => state.held.head?
  | _ => none

/-- The assumption on the texts is about the batches of the reader. -/
def Serializes (marshal : List ε → Option γ) (_ : Broadcaster ε γ) (label : Label ε) : Prop :=
  ∀ events, label = .publish events → (marshal events).isSome = true

variable {marshal : List ε → Option γ} {state after : Broadcaster ε γ} {ch : Nat}

@[simp] theorem mem_insert {keys : List Nat} {key : Nat} : key ∈ insert keys ch ↔ key = ch ∨ key ∈ keys := by
  unfold insert
  split
  · rename_i member
    exact ⟨.inr, fun either => either.elim (fun same => same ▸ member) id⟩
  · simp [or_comm]

theorem nodup_insert {keys : List Nat} (distinct : keys.Nodup) : (insert keys ch).Nodup := by
  unfold insert
  split
  · exact distinct
  · rename_i absent
    refine List.nodup_append.mpr ⟨distinct, by simp, ?_⟩
    intro key member other new
    rw [List.mem_singleton.mp new]
    exact fun same => absent (same ▸ member)

@[simp] theorem mem_delete {keys : List Nat} {key : Nat} : key ∈ delete keys ch ↔ key ∈ keys ∧ key ≠ ch := by
  simp [delete]

theorem buffered_eq (state : Broadcaster ε γ) (ch : Nat) :
    state.buffered ch = ((state.channels[ch]?).map Channel.buffer).getD [] := by
  rw [buffered]
  cases state.channels[ch]? <;> rfl

/-- A change of a buffer keeps the kinds. -/
theorem kindAt_modify (change : Channel ε γ → Channel ε γ)
    (same : ∀ channel, (change channel).kind = channel.kind) (number ch : Nat) :
    ((state.channels.modify number change)[ch]?).map Channel.kind = state.kindAt ch := by
  rw [List.getElem?_modify, kindAt]
  cases state.channels[ch]? with
  | none => rfl
  | some channel =>
      by_cases here : number = ch <;> simp [here, same]

/-- A channel that has lost its first payload keeps its kind. -/
theorem kindAt_receive {number : Nat} {kind : Kind} {payload : Payload ε γ} {others : List (Payload ε γ)}
    (stored : state.channels[number]? = some ⟨kind, payload :: others⟩) (ch : Nat) :
    ((state.channels.set number ⟨kind, others⟩)[ch]?).map Channel.kind = state.kindAt ch := by
  rw [kindAt, List.getElem?_set]
  by_cases same : number = ch
  · subst same
    obtain ⟨inside, found⟩ := List.getElem?_eq_some_iff.mp stored
    simp [inside, found]
  · rw [if_neg same]

theorem channels_addSubscription (state : Broadcaster ε γ) (kind : Kind) (ch : Nat) :
    (state.addSubscription kind).channels[ch]? =
      if ch = state.channels.length then some ⟨kind, []⟩ else state.channels[ch]? :=
  getElem?_snoc _ _ _

theorem offer_kind (channel : Channel ε γ) (payload : Payload ε γ) :
    (offer channel payload).kind = channel.kind := by
  unfold offer
  split <;> rfl

theorem handledAt_of_ne {label : Label ε} (other : label ≠ .handle) :
    handledAt (state, label) = none := by
  cases label <;> first | rfl | contradiction

section Inversion

theorem step_close (taken : step marshal state (.close ch) = some after) :
    ∃ kind, state.kindAt ch = some kind ∧ .add ch kind ∉ state.calls ∧
      after = { state with calls := state.calls ++ [.remove ch kind] } := by
  unfold step at taken
  dsimp only at taken
  split at taken
  · contradiction
  · rename_i channel stored
    split at taken
    · contradiction
    · rename_i returned
      exact ⟨channel.kind, by rw [kindAt, stored, Option.map_some], returned,
        (Option.some.inj taken).symm⟩

theorem step_receive (taken : step marshal state (.receive ch) = some after) :
    ∃ kind payload others, state.channels[ch]? = some ⟨kind, payload :: others⟩ ∧
      after = { state with channels := state.channels.set ch ⟨kind, others⟩ } := by
  unfold step at taken
  dsimp only at taken
  split at taken
  · rename_i kind payload others stored
    exact ⟨kind, payload, others, stored, (Option.some.inj taken).symm⟩
  · contradiction

theorem step_publish {events : List ε} (taken : step marshal state (.publish events) = some after) :
    state.feed = none ∧ after = { state with feed := some events } := by
  obtain ⟨empty, same⟩ := Option.ite_none_right_eq_some.mp taken
  exact ⟨Option.isNone_iff_eq_none.mp empty, (Option.some.inj same).symm⟩

theorem step_control {message : Message} (taken : step marshal state (.control message) = some after) :
    state.phase = .selecting ∧ message ∈ state.calls ∧
      after = { state with calls := state.calls.erase message, phase := .handling message } := by
  unfold step at taken
  dsimp only at taken
  split at taken
  · rename_i selecting
    obtain ⟨member, same⟩ := Option.ite_none_right_eq_some.mp taken
    exact ⟨selecting, member, (Option.some.inj same).symm⟩
  · contradiction

theorem step_handle (taken : step marshal state .handle = some after) :
    ∃ message, state.phase = .handling message ∧
      after = { state.handle message with phase := .selecting } := by
  unfold step at taken
  dsimp only at taken
  split at taken
  · rename_i message handling
    exact ⟨message, handling, (Option.some.inj taken).symm⟩
  · contradiction

theorem step_take (taken : step marshal state .take = some after) :
    ∃ events, state.phase = .selecting ∧ state.feed = some events ∧ after = state.take events := by
  unfold step at taken
  dsimp only at taken
  split at taken
  · rename_i events selecting fed
    exact ⟨events, selecting, fed, (Option.some.inj taken).symm⟩
  · contradiction

theorem step_offer (taken : step marshal state (.offer ch) = some after) :
    ∃ kind events payload left, state.phase = .offering kind events payload left ∧ ch ∈ left ∧
      after = { state with
        channels := state.channels.modify ch fun channel => offer channel payload
        phase := .offering kind events payload (left.erase ch) } := by
  unfold step at taken
  dsimp only at taken
  split at taken
  · rename_i kind events payload left offering
    obtain ⟨member, same⟩ := Option.ite_none_right_eq_some.mp taken
    exact ⟨kind, events, payload, left, offering, member, (Option.some.inj same).symm⟩
  · contradiction

theorem step_next (taken : step marshal state .next = some after) :
    ∃ kind events payload, state.phase = .offering kind events payload [] ∧
      after = state.next marshal events kind := by
  unfold step at taken
  dsimp only at taken
  split at taken
  · rename_i kind events payload offering
    exact ⟨kind, events, payload, offering, (Option.some.inj taken).symm⟩
  · contradiction

end Inversion

def isAdd : Message → Bool
  | .addChannel _ | .addJsonChannel _ => true
  | .removeChannel _ | .removeJsonChannel _ => false

/-- Each channel has one message that adds it, which comes before those that remove it, and the maps
hold what has been added and not removed. -/
structure Sound (marshal : List ε → Option γ) (handled : List Message) (state : Broadcaster ε γ) :
    Prop where
  distinct : ∀ kind, (state.keys kind).Nodup
  registered : ∀ ch kind, ch ∈ state.keys kind ↔ .add ch kind ∈ handled ∧ .remove ch kind ∉ handled
  messages : ∀ message ∈ handled ++ (state.held ++ state.calls), ∃ kind,
    state.kindAt message.ch = some kind ∧
      (message = .add message.ch kind ∨ message = .remove message.ch kind)
  once : ((handled ++ (state.held ++ state.calls)).filter isAdd).Nodup
  every : ∀ ch kind, state.kindAt ch = some kind → .add ch kind ∈ handled ++ (state.held ++ state.calls)
  closed : ∀ ch kind, .remove ch kind ∈ state.calls → .add ch kind ∉ state.calls
  removed : ∀ ch kind, .remove ch kind ∈ handled ++ state.held → .add ch kind ∈ handled
  feed : ∀ events ∈ state.feed, (marshal events).isSome = true
  offering : ∀ kind events payload left, state.phase = .offering kind events payload left →
    left.Nodup ∧ left ⊆ state.keys kind ∧ payloadFor marshal kind events = some payload ∧
      (marshal events).isSome = true

theorem isAdd_add (ch : Nat) (kind : Kind) : isAdd (.add ch kind) = true := by cases kind <;> rfl

theorem isAdd_remove (ch : Nat) (kind : Kind) : isAdd (.remove ch kind) = false := by
  cases kind <;> rfl

namespace Sound

variable {handled : List Message}

theorem initial : Sound marshal [] (.initial : Broadcaster ε γ) where
  distinct kind := by cases kind <;> exact List.nodup_nil
  registered ch kind := by cases kind <;> simp [keys, Broadcaster.initial]
  messages := by simp [held, Broadcaster.initial]
  once := by simp [held, Broadcaster.initial]
  every := by simp [kindAt, Broadcaster.initial]
  closed := by simp [Broadcaster.initial]
  removed := by simp [held, Broadcaster.initial]
  feed := by simp [Broadcaster.initial]
  offering := by simp [Broadcaster.initial]

/-- A message names the kind of its channel. -/
theorem kindAt_add (sound : Sound marshal handled state) {kind : Kind}
    (member : .add ch kind ∈ handled ++ (state.held ++ state.calls)) : state.kindAt ch = some kind := by
  obtain ⟨other, known, same⟩ := sound.messages _ member
  rw [Message.ch_add] at known same
  rcases same with same | same
  · rw [known, (Message.add_inj same).2]
  · exact absurd same (Message.add_ne_remove _ _ _ _)

theorem kindAt_remove (sound : Sound marshal handled state) {kind : Kind}
    (member : .remove ch kind ∈ handled ++ (state.held ++ state.calls)) :
    state.kindAt ch = some kind := by
  obtain ⟨other, known, same⟩ := sound.messages _ member
  rw [Message.ch_remove] at known same
  rcases same with same | same
  · exact absurd same.symm (Message.add_ne_remove _ _ _ _)
  · rw [known, (Message.remove_inj same).2]

/-- The channel of a key has the kind of the map. -/
theorem kindAt_key (sound : Sound marshal handled state) {kind : Kind} (member : ch ∈ state.keys kind) :
    state.kindAt ch = some kind :=
  sound.kindAt_add (List.mem_append_left _ ((sound.registered ch kind).mp member).1)

/-- These facts do not depend on the buffers, and a batch that is on its way has a text. -/
theorem frame (sound : Sound marshal handled state) (kindAt : ∀ ch, after.kindAt ch = state.kindAt ch)
    (keys : after.keys = state.keys) (calls : after.calls = state.calls) (held : after.held = state.held)
    (feed : ∀ events ∈ after.feed, (marshal events).isSome = true)
    (offering : ∀ kind events payload left, after.phase = .offering kind events payload left →
      left.Nodup ∧ left ⊆ state.keys kind ∧ payloadFor marshal kind events = some payload ∧
        (marshal events).isSome = true) : Sound marshal handled after where
  distinct kind := keys ▸ sound.distinct kind
  registered ch kind := keys ▸ sound.registered ch kind
  messages message member := by
    rw [held, calls] at member
    rw [kindAt]
    exact sound.messages message member
  once := by
    rw [held, calls]
    exact sound.once
  every ch kind known := by
    rw [held, calls]
    exact sound.every ch kind (kindAt ch ▸ known)
  closed := calls ▸ sound.closed
  removed := held ▸ sound.removed
  feed := feed
  offering := keys ▸ offering

theorem append_message (handled held calls : List Message) (message : Message) :
    handled ++ (held ++ (calls ++ [message])) = handled ++ (held ++ calls) ++ [message] := by
  simp

theorem kindAt_addSubscription (state : Broadcaster ε γ) (kind : Kind) (ch : Nat) :
    (state.addSubscription kind).kindAt ch =
      if ch = state.channels.length then some kind else state.kindAt ch := by
  rw [Broadcaster.kindAt, Broadcaster.kindAt, channels_addSubscription]
  split <;> rfl

/-- A channel that has a kind is none of the channels to come. -/
theorem kindAt_old (kind : Kind) {known : Kind} (same : state.kindAt ch = some known) :
    ch ≠ state.channels.length ∧ (state.addSubscription kind).kindAt ch = some known := by
  have different : ch ≠ state.channels.length := by
    rintro rfl
    simp [Broadcaster.kindAt] at same
  exact ⟨different, by rw [kindAt_addSubscription, if_neg different, same]⟩

/-- A new channel has its message on the way. -/
theorem addSubscription (sound : Sound marshal handled state) (kind : Kind) :
    Sound marshal handled (state.addSubscription kind) where
  distinct := sound.distinct
  registered := sound.registered
  messages message member := by
    change message ∈ handled ++ (state.held ++ (state.calls ++ [Message.add state.channels.length kind]))
      at member
    rw [append_message] at member
    rcases List.mem_append.mp member with old | new
    · obtain ⟨other, known, same⟩ := sound.messages message old
      exact ⟨other, (kindAt_old kind known).2, same⟩
    · rw [List.mem_singleton.mp new, Message.ch_add, kindAt_addSubscription, if_pos rfl]
      exact ⟨kind, rfl, .inl rfl⟩
  once := by
    change ((handled ++ (state.held ++ (state.calls ++ [Message.add state.channels.length kind]))).filter
      isAdd).Nodup
    rw [append_message, List.filter_append]
    refine List.nodup_append.mpr ⟨sound.once, by simp [isAdd_add], ?_⟩
    intro message member other new same
    rw [← same, List.mem_filter] at new
    rw [List.mem_singleton.mp new.1, List.mem_filter] at member
    exact (kindAt_old kind (sound.kindAt_add member.1)).1 rfl
  every ch known same := by
    change _ ∈ handled ++ (state.held ++ (state.calls ++ [Message.add state.channels.length kind]))
    rw [append_message]
    rw [kindAt_addSubscription] at same
    split at same
    · rename_i here
      obtain rfl := Option.some.inj same
      exact List.mem_append_right _ (here ▸ List.mem_singleton_self _)
    · exact List.mem_append_left _ (sound.every ch known same)
  closed ch known member := by
    rcases List.mem_append.mp member with old | new
    · have same := sound.kindAt_remove (List.mem_append_right _ (List.mem_append_right _ old))
      intro added
      rcases List.mem_append.mp added with before | fresh
      · exact sound.closed ch known old before
      · exact (kindAt_old kind same).1 (Message.add_inj (List.mem_singleton.mp fresh)).1
    · exact absurd (List.mem_singleton.mp new).symm (Message.add_ne_remove _ _ _ _)
  removed := sound.removed
  feed := sound.feed
  offering := sound.offering

/-- `Close` is called on a subscription whose message has been received. -/
theorem close (sound : Sound marshal handled state) {kind : Kind} (known : state.kindAt ch = some kind)
    (added : .add ch kind ∉ state.calls) :
    Sound marshal handled { state with calls := state.calls ++ [.remove ch kind] } where
  distinct := sound.distinct
  registered := sound.registered
  messages message member := by
    change message ∈ handled ++ (state.held ++ (state.calls ++ [Message.remove ch kind])) at member
    rw [append_message] at member
    rcases List.mem_append.mp member with old | new
    · exact sound.messages message old
    · rw [List.mem_singleton.mp new, Message.ch_remove]
      exact ⟨kind, known, .inr rfl⟩
  once := by
    change ((handled ++ (state.held ++ (state.calls ++ [Message.remove ch kind]))).filter isAdd).Nodup
    rw [append_message, List.filter_append,
      List.filter_singleton, isAdd_remove]
    exact (List.append_nil _).symm ▸ sound.once
  every other otherKind same := by
    change _ ∈ handled ++ (state.held ++ (state.calls ++ [Message.remove ch kind]))
    rw [append_message]
    exact List.mem_append_left _ (sound.every other otherKind same)
  closed other otherKind member := by
    intro either
    rcases List.mem_append.mp either with before | new
    · rcases List.mem_append.mp member with old | fresh
      · exact sound.closed other otherKind old before
      · obtain ⟨rfl, rfl⟩ := Message.remove_inj (List.mem_singleton.mp fresh)
        exact added before
    · exact Message.add_ne_remove _ _ _ _ (List.mem_singleton.mp new)
  removed := sound.removed
  feed := sound.feed
  offering := sound.offering

/-- A message is received while `run` waits at its select statement. -/
theorem control (sound : Sound marshal handled state) {message : Message}
    (selecting : state.phase = .selecting) (waiting : message ∈ state.calls) :
    Sound marshal handled
      { state with calls := state.calls.erase message, phase := .handling message } := by
  have idle : state.held = [] := by rw [held, selecting]
  have moved : (handled ++ ([message] ++ state.calls.erase message)).Perm
      (handled ++ (state.held ++ state.calls)) := by
    rw [idle]
    exact (List.perm_cons_erase waiting).symm.append_left handled
  refine ⟨sound.distinct, sound.registered, ?_, ?_, ?_, ?_, ?_, sound.feed, by simp⟩
  · exact fun other member => sound.messages other (moved.mem_iff.mp member)
  · exact (moved.filter isAdd).nodup_iff.mpr sound.once
  · exact fun ch kind known => moved.mem_iff.mpr (sound.every ch kind known)
  · intro ch kind member added
    exact sound.closed ch kind (List.mem_of_mem_erase member) (List.mem_of_mem_erase added)
  · intro ch kind member
    rcases List.mem_append.mp member with old | new
    · exact sound.removed ch kind (List.mem_append_left _ old)
    · obtain rfl := (List.mem_singleton.mp new).symm
      have known := sound.kindAt_remove (List.mem_append_right _ (List.mem_append_right _ waiting))
      have sent := sound.every ch kind known
      rw [idle] at sent
      exact (List.mem_append.mp sent).resolve_right (sound.closed ch kind waiting)

theorem keys_handle_add (state : Broadcaster ε γ) (number : Nat) (kind other : Kind) :
    (state.handle (.add number kind)).keys other =
      if other = kind then insert (state.keys other) number else state.keys other := by
  cases kind <;> cases other <;> rfl

theorem keys_handle_remove (state : Broadcaster ε γ) (number : Nat) (kind other : Kind) :
    (state.handle (.remove number kind)).keys other =
      if other = kind then delete (state.keys other) number else state.keys other := by
  cases kind <;> cases other <;> rfl

theorem handle_frame (state : Broadcaster ε γ) (message : Message) :
    (state.handle message).channels = state.channels ∧ (state.handle message).calls = state.calls ∧
      (state.handle message).feed = state.feed := by
  cases message <;> exact ⟨rfl, rfl, rfl⟩

/-- The keys after a message are those that it and the earlier ones have left. -/
theorem registered_handle (sound : Sound marshal handled state) {message : Message}
    (handling : state.held = [message]) (number : Nat) (kind : Kind) :
    number ∈ (state.handle message).keys kind ↔
      .add number kind ∈ handled ++ [message] ∧ .remove number kind ∉ handled ++ [message] := by
  obtain ⟨known, _, named⟩ := sound.messages message (by simp [handling])
  have before := sound.registered number kind
  rcases named with added | removed
  · -- An added channel has not been removed before.
    have fresh : .add message.ch known ∉ handled := by
      intro member
      have once := sound.once
      rw [handling, List.filter_append, List.nodup_append] at once
      apply once.2.2 _ (List.mem_filter.mpr ⟨member, isAdd_add _ _⟩) _
        (List.mem_filter.mpr ⟨List.mem_append_left _ (List.mem_singleton.mpr added.symm),
          isAdd_add _ _⟩)
      rfl
    have kept : .remove message.ch known ∉ handled :=
      fun member => fresh (sound.removed _ _ (List.mem_append_left _ member))
    rw [added, keys_handle_add]
    by_cases here : number = message.ch ∧ kind = known
    · obtain ⟨rfl, rfl⟩ := here
      simp [kept, (Message.add_ne_remove _ _ _ _).symm]
    · have other : Message.add number kind ≠ .add message.ch known :=
        fun same => here (Message.add_inj same)
      have others : Message.remove number kind ≠ .add message.ch known :=
        (Message.add_ne_remove _ _ _ _).symm
      simp only [List.mem_append, List.mem_singleton, other, others, or_false]
      rw [← before]
      split
      · rename_i same
        rw [mem_insert]
        exact or_iff_right fun equal => here ⟨equal, same⟩
      · rfl
  · rw [removed, keys_handle_remove]
    have other : Message.add number kind ≠ .remove message.ch known := Message.add_ne_remove _ _ _ _
    by_cases here : number = message.ch ∧ kind = known
    · obtain ⟨rfl, rfl⟩ := here
      simp
    · have others : Message.remove number kind ≠ .remove message.ch known :=
        fun same => here (Message.remove_inj same)
      simp only [List.mem_append, List.mem_singleton, other, others, or_false]
      rw [← before]
      split
      · rename_i same
        rw [mem_delete]
        exact and_iff_left fun equal => here ⟨equal, same⟩
      · rfl

/-- A handled message leaves the maps and the calls in order. -/
theorem handle (sound : Sound marshal handled state) {message : Message}
    (phase : state.phase = .handling message) :
    Sound marshal (handled ++ [message]) { state.handle message with phase := .selecting } := by
  have handling : state.held = [message] := by rw [held, phase]
  obtain ⟨channels, calls, feed⟩ := handle_frame state message
  have moved : handled ++ (state.held ++ state.calls) = handled ++ [message] ++ ([] ++ state.calls) := by
    simp [handling]
  have kindAt : ∀ ch, ((state.handle message).channels[ch]?).map Channel.kind = state.kindAt ch := by
    intro ch
    rw [channels]
    rfl
  refine ⟨?_, sound.registered_handle handling, ?_, ?_, ?_, ?_, ?_, ?_, by simp⟩
  · intro kind
    change ((state.handle message).keys kind).Nodup
    obtain ⟨known, _, named⟩ := sound.messages message (by simp [handling])
    rcases named with added | removed
    · rw [added, keys_handle_add]
      split
      · exact nodup_insert (sound.distinct kind)
      · exact sound.distinct kind
    · rw [removed, keys_handle_remove]
      split
      · exact (sound.distinct kind).filter _
      · exact sound.distinct kind
  · intro other member
    change other ∈ handled ++ [message] ++ ([] ++ (state.handle message).calls) at member
    rw [calls, ← moved] at member
    rw [Broadcaster.kindAt, kindAt]
    exact sound.messages other member
  · change ((handled ++ [message] ++ ([] ++ (state.handle message).calls)).filter isAdd).Nodup
    rw [calls, ← moved]
    exact sound.once
  · intro ch kind known
    change _ ∈ handled ++ [message] ++ ([] ++ (state.handle message).calls)
    rw [calls, ← moved]
    exact sound.every ch kind (kindAt ch ▸ known)
  · intro ch kind
    change _ ∈ (state.handle message).calls → _ ∉ (state.handle message).calls
    rw [calls]
    exact sound.closed ch kind
  · intro ch kind member
    change _ ∈ handled ++ [message] ++ [] at member
    rw [List.append_nil, ← handling] at member
    exact List.mem_append_left _ (sound.removed ch kind member)
  · change ∀ events ∈ (state.handle message).feed, _
    rw [feed]
    exact sound.feed

/-- Every step of the goroutines keeps the facts if the reader's batches have texts. -/
theorem step {label : Label ε} (sound : Sound marshal handled state)
    (serializes : Serializes marshal state label)
    (taken : Broadcaster.step marshal state label = some after) :
    Sound marshal (handled ++ (handledAt (state, label)).toList) after := by
  have unhandled : label ≠ .handle → handled ++ (handledAt (state, label)).toList = handled := by
    intro other
    rw [handledAt_of_ne other, Option.toList_none, List.append_nil]
  cases label with
  | subscribe kind =>
      obtain rfl := Option.some.inj taken
      rw [unhandled nofun]
      exact sound.addSubscription kind
  | close ch =>
      obtain ⟨kind, known, returned, rfl⟩ := step_close taken
      rw [unhandled nofun]
      exact sound.close known returned
  | receive ch =>
      obtain ⟨kind, payload, others, stored, rfl⟩ := step_receive taken
      rw [unhandled nofun]
      exact sound.frame (kindAt_receive stored) rfl rfl rfl sound.feed sound.offering
  | publish events =>
      obtain ⟨_, rfl⟩ := step_publish taken
      rw [unhandled nofun]
      refine sound.frame (fun _ => rfl) rfl rfl rfl ?_ sound.offering
      intro published fed
      obtain rfl := Option.some.inj fed
      exact serializes _ rfl
  | control message =>
      obtain ⟨selecting, waiting, rfl⟩ := step_control taken
      rw [unhandled nofun]
      exact sound.control selecting waiting
  | handle =>
      obtain ⟨message, handling, rfl⟩ := step_handle taken
      simpa [handledAt, held, handling] using sound.handle handling
  | take =>
      obtain ⟨events, selecting, fed, rfl⟩ := step_take taken
      rw [unhandled nofun]
      unfold Broadcaster.take
      split
      · exact sound.frame (fun _ => rfl) rfl rfl rfl (by simp) sound.offering
      · refine sound.frame (fun _ => rfl) rfl rfl (by simp [held, selecting]) (by simp) ?_
        intro kind batch payload left offering
        obtain ⟨rfl, rfl, rfl, rfl⟩ := Phase.offering.inj offering
        exact ⟨sound.distinct .events, List.Subset.refl _, rfl, sound.feed _ fed⟩
  | offer ch =>
      obtain ⟨kind, events, payload, left, offering, member, rfl⟩ := step_offer taken
      rw [unhandled nofun]
      refine sound.frame ?_ rfl rfl (by simp [held, offering]) sound.feed ?_
      · exact fun other => kindAt_modify _ (fun channel => offer_kind channel payload) ch other
      · intro other batch same rest now
        obtain ⟨rfl, rfl, rfl, rfl⟩ := Phase.offering.inj now
        obtain ⟨distinct, inside, text, some_text⟩ := sound.offering _ _ _ _ offering
        exact ⟨distinct.erase ch, List.Subset.trans List.erase_subset inside, text, some_text⟩
  | next =>
      obtain ⟨kind, events, payload, offering, rfl⟩ := step_next taken
      rw [unhandled nofun]
      have serialized := (sound.offering _ _ _ _ offering).2.2.2
      cases kind with
      | json =>
          exact sound.frame (fun _ => rfl) rfl rfl (by simp [Broadcaster.next, held, offering])
            sound.feed (by simp [Broadcaster.next])
      | events =>
          rw [Broadcaster.next]
          split
          · exact sound.frame (fun _ => rfl) rfl rfl (by simp [held, offering]) sound.feed (by simp)
          · obtain ⟨text, same⟩ := Option.isSome_iff_exists.mp serialized
            rw [same]
            refine sound.frame (fun _ => rfl) rfl rfl (by simp [held, offering]) sound.feed ?_
            intro kind batch payload left now
            obtain ⟨rfl, rfl, rfl, rfl⟩ := Phase.offering.inj now
            exact ⟨sound.distinct .json, List.Subset.refl _, by simp [payloadFor, same], serialized⟩

end Sound

end Broadcaster

end ClamavDbscan.FSWatcher
