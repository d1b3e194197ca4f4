import ClamavDbscan.Construction.FSWatcher.MarshalJSON
import ClamavDbscan.Proof.FSWatcher.BroadcastSteps

/-
This file proves what each subscriber of the Go watcher receives.
-/

namespace ClamavDbscan.FSWatcher.Broadcaster

open Transition

variable {ε γ : Type} {marshal : List ε → Option γ} {state after : Broadcaster ε γ} {ch : Nat}
  {handled : List Message} {label : Label ε}

theorem pending_selecting (selecting : state.phase = .selecting) (ch : Nat) :
    state.pending ch = none := by
  rw [pending, selecting]

/-- A channel is in one of the maps only. -/
theorem Sound.not_mem_json (sound : Sound marshal handled state) (member : ch ∈ state.subscribers) :
    ch ∉ state.jsonSubscribers := by
  intro json
  have events : state.kindAt ch = some .events := sound.kindAt_key member
  have text : state.kindAt ch = some .json := sound.kindAt_key json
  rw [events] at text
  contradiction

/-- One step offers the pending batch, and a batch that is taken becomes pending. -/
theorem pending_step (sound : Sound marshal handled state)
    (taken : step marshal state label = some after) (ch : Nat) :
    (state.pending ch).toList ++ (takenAt ch (state, label)).toList =
      ((offeredAt ch (state, label)).map Prod.fst).toList ++ (after.pending ch).toList := by
  cases label with
  | subscribe kind =>
      obtain rfl := Option.some.inj taken
      exact List.append_nil _
  | close other =>
      obtain ⟨kind, _, _, rfl⟩ := step_close taken
      exact List.append_nil _
  | receive other =>
      obtain ⟨kind, payload, others, _, rfl⟩ := step_receive taken
      exact List.append_nil _
  | publish events =>
      obtain ⟨_, rfl⟩ := step_publish taken
      exact List.append_nil _
  | control message =>
      obtain ⟨selecting, _, rfl⟩ := step_control taken
      rw [pending_selecting selecting]
      rfl
  | handle =>
      obtain ⟨message, handling, rfl⟩ := step_handle taken
      rw [pending, handling]
      rfl
  | take =>
      obtain ⟨events, selecting, fed, rfl⟩ := step_take taken
      rw [pending_selecting selecting, takenAt, fedAt, fed, Broadcaster.take]
      split
      · rename_i empty
        simp [empty, pending, selecting, offeredAt]
      · rename_i nonempty
        by_cases registered : state.Registered ch
        · have listed : ch ∈ state.subscribers ∨ ch ∈ state.jsonSubscribers := registered
          simp [pending, offeredAt, listed, registered, nonempty]
        · have absent : ¬ (ch ∈ state.subscribers ∨ ch ∈ state.jsonSubscribers) := registered
          simp [pending, offeredAt, absent, registered]
  | offer other =>
      obtain ⟨kind, events, payload, left, offering, member, rfl⟩ := step_offer taken
      obtain ⟨distinct, inside, _⟩ := sound.offering _ _ _ _ offering
      by_cases same : other = ch
      · subst same
        have gone : other ∉ left.erase other := distinct.not_mem_erase
        cases kind with
        | events =>
            have elsewhere := sound.not_mem_json (inside member)
            simp [pending, takenAt, fedAt, offeredAt, offering, member, gone, elsewhere]
        | json => simp [pending, takenAt, fedAt, offeredAt, offering, member, gone]
      · have kept : ch ∈ left.erase other ↔ ch ∈ left := List.mem_erase_of_ne (Ne.symm same)
        cases kind <;> simp [pending, takenAt, fedAt, offeredAt, offering, same, kept]
  | next =>
      obtain ⟨kind, events, payload, offering, rfl⟩ := step_next taken
      cases kind with
      | json => simp [pending, takenAt, fedAt, offeredAt, offering, Broadcaster.next]
      | events =>
          obtain ⟨text, serialized⟩ :=
            Option.isSome_iff_exists.mp (sound.offering _ _ _ _ offering).2.2.2
          rw [Broadcaster.next, serialized]
          split
          · rename_i empty
            simp [pending, takenAt, fedAt, offeredAt, offering, empty]
          · simp [pending, takenAt, fedAt, offeredAt, offering]

theorem buffered_of_channels (channels : after.channels = state.channels) (ch : Nat) :
    after.buffered ch = state.buffered ch := by
  rw [buffered, buffered, channels]

@[simp] theorem take_channels (events : List ε) : (state.take events).channels = state.channels := by
  unfold Broadcaster.take
  split <;> rfl

@[simp] theorem next_channels (events : List ε) (kind : Kind) :
    (state.next marshal events kind).channels = state.channels := by
  cases kind with
  | json => rfl
  | events =>
      rw [Broadcaster.next]
      split
      · rfl
      · split <;> rfl

/-- These steps leave the buffers alone. -/
theorem step_channels (taken : step marshal state label = some after)
    (quiet : match label with | .subscribe _ | .receive _ | .offer _ => False | _ => True) :
    after.channels = state.channels := by
  cases label with
  | subscribe | receive | offer => contradiction
  | close other =>
      obtain ⟨kind, _, _, rfl⟩ := step_close taken
      rfl
  | publish events =>
      obtain ⟨_, rfl⟩ := step_publish taken
      rfl
  | control message =>
      obtain ⟨_, _, rfl⟩ := step_control taken
      rfl
  | handle =>
      obtain ⟨message, _, rfl⟩ := step_handle taken
      exact (Sound.handle_frame state message).1
  | take =>
      obtain ⟨events, _, _, rfl⟩ := step_take taken
      exact take_channels events
  | next =>
      obtain ⟨kind, events, payload, _, rfl⟩ := step_next taken
      exact next_channels events kind

theorem buffered_addSubscription (kind : Kind) (ch : Nat) :
    (state.addSubscription kind).buffered ch = state.buffered ch := by
  rw [buffered_eq, buffered_eq, channels_addSubscription]
  split
  · rename_i new
    rw [List.getElem?_eq_none (Nat.le_of_eq new.symm)]
    rfl
  · rfl

/-- An offer is for a channel of its kind. -/
theorem Sound.offered_channel (sound : Sound marshal handled state) {kind : Kind} {events : List ε}
    {payload : Payload ε γ} {left : List Nat} (offering : state.phase = .offering kind events payload left)
    (member : ch ∈ left) : ∃ channel, state.channels[ch]? = some channel ∧ channel.kind = kind := by
  have known := sound.kindAt_key ((sound.offering _ _ _ _ offering).2.1 member)
  exact Option.map_eq_some_iff.mp known

/-- One step receives the first payload of a channel, and an accepted offer becomes its last. -/
theorem buffered_step (sound : Sound marshal handled state)
    (taken : step marshal state label = some after) {kind : Kind}
    (known : ∀ other, state.kindAt ch = some other → other = kind) :
    (receivedAt ch (state, label)).toList ++ after.buffered ch =
      state.buffered ch ++ ((offeredAt ch (state, label)).bind (accepted marshal kind)).toList := by
  cases label with
  | subscribe other =>
      obtain rfl := Option.some.inj taken
      rw [buffered_addSubscription]
      exact (List.append_nil _).symm
  | receive other =>
      obtain ⟨otherKind, payload, others, stored, rfl⟩ := step_receive taken
      by_cases same : other = ch
      · subst same
        obtain ⟨inside, found⟩ := List.getElem?_eq_some_iff.mp stored
        simp [receivedAt, offeredAt, buffered, inside, found]
      · simp [receivedAt, offeredAt, buffered, same]
  | offer other =>
      obtain ⟨otherKind, events, payload, left, offering, member, rfl⟩ := step_offer taken
      obtain ⟨channel, stored, sort⟩ := sound.offered_channel offering member
      obtain ⟨_, _, text, _⟩ := sound.offering _ _ _ _ offering
      by_cases same : other = ch
      · subst same
        obtain rfl := known otherKind (by rw [kindAt, stored, Option.map_some, sort])
        by_cases room : channel.buffer.length < capacity
        · simp [receivedAt, offeredAt, offering, buffered, stored, accepted, offer, room, text]
        · simp [receivedAt, offeredAt, offering, buffered, stored, accepted, offer, room]
      · simp [receivedAt, offeredAt, offering, buffered, same]
  | close | publish | control | handle | take | next =>
      rw [buffered_of_channels (step_channels taken trivial)]
      exact (List.append_nil _).symm

/-- A channel keeps its kind. -/
theorem kindAt_step {kind : Kind} (taken : step marshal state label = some after)
    (known : state.kindAt ch = some kind) : after.kindAt ch = some kind := by
  cases label with
  | subscribe other =>
      obtain rfl := Option.some.inj taken
      exact (Sound.kindAt_old other known).2
  | receive other =>
      obtain ⟨otherKind, payload, others, stored, rfl⟩ := step_receive taken
      exact (kindAt_receive stored ch).trans known
  | offer other =>
      obtain ⟨otherKind, events, payload, left, _, _, rfl⟩ := step_offer taken
      rw [← known]
      exact kindAt_modify _ (fun channel => offer_kind channel payload) other ch
  | close | publish | control | handle | take | next =>
      rw [kindAt, step_channels taken trivial]
      exact known

@[simp] theorem take_feed (events : List ε) : (state.take events).feed = none := by
  unfold Broadcaster.take
  split <;> rfl

/-- What follows an iteration leaves the feed, the maps and the calls alone. -/
theorem next_frame (events : List ε) (kind : Kind) :
    (state.next marshal events kind).feed = state.feed ∧
      (state.next marshal events kind).subscribers = state.subscribers ∧
      (state.next marshal events kind).jsonSubscribers = state.jsonSubscribers := by
  cases kind with
  | json => exact ⟨rfl, rfl, rfl⟩
  | events =>
      rw [Broadcaster.next]
      split
      · exact ⟨rfl, rfl, rfl⟩
      · split <;> exact ⟨rfl, rfl, rfl⟩

/-- One step hands the waiting batch over, and the next one waits only then. -/
theorem feed_step (taken : step marshal state label = some after) :
    state.feed.toList ++ (publishedAt (state, label)).toList =
      (fedAt (state, label)).toList ++ after.feed.toList := by
  cases label with
  | subscribe kind =>
      obtain rfl := Option.some.inj taken
      exact List.append_nil _
  | close other =>
      obtain ⟨kind, _, _, rfl⟩ := step_close taken
      exact List.append_nil _
  | receive other =>
      obtain ⟨kind, payload, others, _, rfl⟩ := step_receive taken
      exact List.append_nil _
  | publish events =>
      obtain ⟨empty, rfl⟩ := step_publish taken
      rw [empty]
      rfl
  | control message =>
      obtain ⟨_, _, rfl⟩ := step_control taken
      exact List.append_nil _
  | handle =>
      obtain ⟨message, _, rfl⟩ := step_handle taken
      change _ = [] ++ (state.handle message).feed.toList
      rw [(Sound.handle_frame state message).2.2]
      exact List.append_nil _
  | take =>
      obtain ⟨events, _, fed, rfl⟩ := step_take taken
      rw [take_feed, fedAt, fed]
      rfl
  | offer other =>
      obtain ⟨kind, events, payload, left, _, _, rfl⟩ := step_offer taken
      exact List.append_nil _
  | next =>
      obtain ⟨kind, events, payload, _, rfl⟩ := step_next taken
      rw [(next_frame events kind).1]
      exact List.append_nil _

section Runs

variable {past later earlier : List (Broadcaster ε γ × Label ε)} {last : Broadcaster ε γ}

theorem sound_run (run : Run (system marshal) past last) (serializes : Meets (Serializes marshal) past) :
    Sound marshal (observed handledAt past) last := by
  induction run with
  | start begins =>
      obtain rfl : _ = Broadcaster.initial := begins
      exact .initial
  | next earlier taken ih =>
      rw [meets_cons] at serializes
      rw [observed_cons]
      exact (ih serializes.2).step serializes.1 taken

/-- The feed hands the batches over in the order of the reader. -/
theorem published_eq_fed (run : Run (system marshal) past last) :
    observed publishedAt past = observed fedAt past ++ last.feed.toList := by
  induction run with
  | start begins =>
      obtain rfl : _ = Broadcaster.initial := begins
      rfl
  | @next past state after label earlier taken ih =>
      rw [observed_cons, observed_cons, ih, List.append_assoc, List.append_assoc, feed_step taken]

theorem taken_eq_offered (run : Run (system marshal) past last)
    (serializes : Meets (Serializes marshal) past) (ch : Nat) :
    observed (takenAt ch) past =
      (observed (offeredAt ch) past).map Prod.fst ++ (last.pending ch).toList := by
  induction run with
  | start begins =>
      obtain rfl : _ = Broadcaster.initial := begins
      rfl
  | @next past state after label earlier taken ih =>
      rw [meets_cons] at serializes
      have moved := pending_step (sound_run earlier serializes.2) taken ch
      rw [observed_cons, observed_cons, ih serializes.2, List.append_assoc, moved, List.map_append,
        List.append_assoc]
      cases offeredAt ch (state, label) <;> rfl

theorem received_eq_accepted (run : Run (system marshal) past last)
    (serializes : Meets (Serializes marshal) past) {kind : Kind}
    (known : ∀ other, last.kindAt ch = some other → other = kind) :
    observed (receivedAt ch) past ++ last.buffered ch =
      (observed (offeredAt ch) past).filterMap (accepted marshal kind) := by
  induction run with
  | start begins =>
      obtain rfl : _ = Broadcaster.initial := begins
      rfl
  | @next past state after label earlier taken ih =>
      rw [meets_cons] at serializes
      have before : ∀ other, state.kindAt ch = some other → other = kind :=
        fun other same => known other (kindAt_step taken same)
      have moved := buffered_step (sound_run earlier serializes.2) taken before
      rw [observed_cons, observed_cons, List.append_assoc, moved, ← List.append_assoc,
        ih serializes.2 before, List.filterMap_append]
      congr 1
      cases offeredAt ch (state, label) with
      | none => rfl
      | some offered =>
          change (accepted marshal kind offered).toList = [offered].filterMap (accepted marshal kind)
          cases text : accepted marshal kind offered <;> simp [text]

/-- A message that `run` has received is handled next. -/
theorem held_step (taken : Broadcaster.step marshal state label = some after) :
    state.held ⊆ (handledAt (state, label)).toList ++ after.held := by
  cases label with
  | subscribe kind =>
      obtain rfl := Option.some.inj taken
      exact List.Subset.refl _
  | close other =>
      obtain ⟨kind, _, _, rfl⟩ := step_close taken
      exact List.Subset.refl _
  | receive other =>
      obtain ⟨kind, payload, others, _, rfl⟩ := step_receive taken
      exact List.Subset.refl _
  | publish events =>
      obtain ⟨_, rfl⟩ := step_publish taken
      exact List.Subset.refl _
  | control message =>
      obtain ⟨selecting, _, rfl⟩ := step_control taken
      simp [held, selecting]
  | handle =>
      obtain ⟨message, handling, rfl⟩ := step_handle taken
      simp [held, handledAt, handling]
  | take =>
      obtain ⟨events, selecting, _, rfl⟩ := step_take taken
      simp [held, selecting]
  | offer other =>
      obtain ⟨kind, events, payload, left, offering, _, rfl⟩ := step_offer taken
      simp [held, offering]
  | next =>
      obtain ⟨kind, events, payload, offering, rfl⟩ := step_next taken
      simp [held, offering]

/-- A channel whose removal has been received is offered nothing. -/
theorem Sound.not_offered (sound : Sound marshal handled state) {kind : Kind}
    (removed : .remove ch kind ∈ handled ++ state.held)
    (taken : Broadcaster.step marshal state label = some after) : label ≠ .offer ch := by
  rintro rfl
  obtain ⟨other, events, payload, left, offering, member, rfl⟩ := step_offer taken
  have idle : state.held = [] := by rw [held, offering]
  rw [idle, List.append_nil] at removed
  have key := (sound.offering _ _ _ _ offering).2.1 member
  have known := sound.kindAt_remove (List.mem_append_left _ removed)
  rw [sound.kindAt_key key] at known
  obtain rfl := Option.some.inj known
  exact ((sound.registered ch other).mp key).2 removed

/-- After `Close` has returned nothing is sent to the channel. -/
theorem silent_after_close {kind : Kind} (state : Broadcaster ε γ)
    (run : Run (system marshal) (later ++ (state, .control (.remove ch kind)) :: earlier) last)
    (serializes : Meets (Serializes marshal) (later ++ (state, .control (.remove ch kind)) :: earlier)) :
    .remove ch kind ∈ observed handledAt (later ++ (state, .control (.remove ch kind)) :: earlier) ++
        last.held ∧
      ∀ taken ∈ later, taken.2 ≠ .offer ch := by
  induction later generalizing last with
  | nil =>
      obtain ⟨_, taken⟩ := run.uncons
      change Broadcaster.step marshal state (.control (.remove ch kind)) = some last at taken
      obtain ⟨_, _, rfl⟩ := step_control taken
      exact ⟨by simp [held], fun _ member => absurd member List.not_mem_nil⟩
  | cons entry later ih =>
      obtain ⟨before, label⟩ := entry
      obtain ⟨ran, taken⟩ := run.uncons
      obtain ⟨_, others⟩ := (meets_cons _ _ _).mp serializes
      obtain ⟨removed, silent⟩ := ih ran others
      refine ⟨?_, ?_⟩
      · rw [List.cons_append, observed_cons]
        rw [List.append_assoc]
        rcases List.mem_append.mp removed with done | waiting
        · exact List.mem_append_left _ done
        · exact List.mem_append_right _ (held_step taken waiting)
      · intro other member
        rcases List.mem_cons.mp member with rfl | rest
        · exact (sound_run ran others).not_offered removed taken
        · exact silent other rest

/-- Only an offer makes a channel longer. -/
theorem buffered_shrinks (sound : Sound marshal handled state)
    (taken : Broadcaster.step marshal state label = some after) (other : label ≠ .offer ch) :
    (after.buffered ch).length ≤ (state.buffered ch).length := by
  have known : ∀ kind, state.kindAt ch = some kind → kind = (state.kindAt ch).getD .events := by
    intro kind same
    rw [same]
    rfl
  have unoffered : offeredAt ch (state, label) = none := by
    cases label with
    | offer number =>
        have different : number ≠ ch := fun same => other (by rw [same])
        simp only [offeredAt, different, if_false]
        split <;> rfl
    | subscribe | close | receive | publish | control | handle | take | next => rfl
  have moved := congrArg List.length (buffered_step sound taken known)
  rw [unoffered, Option.bind_none, Option.toList_none, List.append_nil, List.length_append] at moved
  omega

theorem shrinks_until_offer (state : Broadcaster ε γ)
    (run : Run (system marshal) (later ++ (state, .take) :: earlier) last)
    (serializes : Meets (Serializes marshal) (later ++ (state, .take) :: earlier))
    (unoffered : ∀ taken ∈ later, taken.2 ≠ .offer ch) :
    (last.buffered ch).length ≤ (state.buffered ch).length := by
  induction later generalizing last with
  | nil =>
      obtain ⟨ran, taken⟩ := run.uncons
      have before := ((meets_cons _ _ _).mp serializes).2
      change Broadcaster.step marshal state .take = some last at taken
      exact buffered_shrinks (sound_run ran before) taken nofun
  | cons entry later ih =>
      obtain ⟨before, label⟩ := entry
      obtain ⟨ran, taken⟩ := run.uncons
      have others := ((meets_cons _ _ _).mp serializes).2
      have shorter := ih ran others fun taken member => unoffered taken (List.mem_cons_of_mem _ member)
      exact (buffered_shrinks (sound_run ran others) taken (unoffered _ List.mem_cons_self)).trans
        shorter

end Runs

/-- The step is about this channel. -/
def about (state : Broadcaster ε γ) : Label ε → Option Nat
  | .close ch | .receive ch | .offer ch => some ch
  | .control message => some message.ch
  | .handle => state.held.head?.map Message.ch
  | .subscribe _ | .publish _ | .take | .next => none

/-- Nothing has changed for this subscriber. -/
structure SameFor (ch : Nat) (state after : Broadcaster ε γ) : Prop where
  buffered : after.buffered ch = state.buffered ch
  registered : after.Registered ch ↔ state.Registered ch
  pending : after.pending ch = state.pending ch
  feed : after.feed = state.feed

theorem registered_handle {message : Message} {other : Nat} (different : other ≠ message.ch) :
    (state.handle message).Registered other ↔ state.Registered other := by
  cases message <;> simp_all [Registered, Broadcaster.handle, Message.ch]

/-- A step about one channel changes nothing for the other subscribers. -/
theorem sameFor_step (taken : step marshal state label = some after)
    (here : state.about label = some ch) {other : Nat} (different : other ≠ ch) :
    SameFor other state after := by
  cases label with
  | subscribe | publish | take | next => contradiction
  | close number =>
      obtain ⟨kind, _, _, rfl⟩ := step_close taken
      exact ⟨rfl, Iff.rfl, rfl, rfl⟩
  | receive number =>
      obtain ⟨kind, payload, others, _, rfl⟩ := step_receive taken
      obtain rfl := Option.some.inj here
      exact ⟨by simp [Broadcaster.buffered, Ne.symm different], Iff.rfl, rfl, rfl⟩
  | control message =>
      obtain ⟨selecting, _, rfl⟩ := step_control taken
      exact ⟨rfl, Iff.rfl, by simp [Broadcaster.pending, selecting], rfl⟩
  | handle =>
      obtain ⟨message, handling, rfl⟩ := step_handle taken
      have same : message.ch = ch := by simpa [about, held, handling] using here
      obtain ⟨channels, _, feed⟩ := Sound.handle_frame state message
      exact ⟨buffered_of_channels channels other, registered_handle (same ▸ different),
        by simp [Broadcaster.pending, handling], feed⟩
  | offer number =>
      obtain ⟨kind, events, payload, left, offering, _, rfl⟩ := step_offer taken
      obtain rfl := Option.some.inj here
      have kept : other ∈ left.erase number ↔ other ∈ left := List.mem_erase_of_ne different
      refine ⟨by simp [Broadcaster.buffered, Ne.symm different], Iff.rfl, ?_, rfl⟩
      cases kind <;> simp [Broadcaster.pending, offering, kept]

/-- A step about one channel changes nothing for the others, and no channel delays an offer. -/
def Isolated (marshal : List ε → Option γ) (state : Broadcaster ε γ) : Prop :=
  (∀ label after ch, step marshal state label = some after → state.about label = some ch →
    ∀ other ≠ ch, SameFor other state after) ∧
  ∀ kind events payload left, state.phase = .offering kind events payload left → ∀ ch ∈ left,
    ∃ after, step marshal state (.offer ch) = some after

theorem isolated (marshal : List ε → Option γ) (state : Broadcaster ε γ) : Isolated marshal state := by
  refine ⟨fun label after ch taken here other different => sameFor_step taken here different, ?_⟩
  intro kind events payload left offering ch member
  simp [step, offering, member]

/-- What is taken for a subscription is offered to it in order; the offers that find room are
received in order, and nothing is offered after `Close` has returned. -/
structure BroadcastLaw (marshal : List ε → Option γ) (past : List (Broadcaster ε γ × Label ε))
    (last : Broadcaster ε γ) (ch : Nat) : Prop where
  offered : observed (takenAt ch) past =
    (observed (offeredAt ch) past).map Prod.fst ++ (last.pending ch).toList
  received : ∀ kind, last.kindAt ch = some kind →
    observed (receivedAt ch) past ++ last.buffered ch =
      (observed (offeredAt ch) past).filterMap (accepted marshal kind)
  registered : last.Registered ch ↔ ∃ kind, .add ch kind ∈ observed handledAt past ∧
    .remove ch kind ∉ observed handledAt past
  -- A batch that finds no room when it is offered found none when it was taken.
  shrinks : ∀ later state earlier, past = later ++ (state, .take) :: earlier →
    (∀ taken ∈ later, taken.2 ≠ .offer ch) →
    (last.buffered ch).length ≤ (state.buffered ch).length
  closed : ∀ later state kind earlier, past = later ++ (state, .control (.remove ch kind)) :: earlier →
    ∀ taken ∈ later, taken.2 ≠ .offer ch

theorem Sound.registered_iff (sound : Sound marshal handled state) (ch : Nat) :
    state.Registered ch ↔ ∃ kind, .add ch kind ∈ handled ∧ .remove ch kind ∉ handled := by
  constructor
  · intro either
    rcases either with member | member
    · exact ⟨.events, (sound.registered ch .events).mp member⟩
    · exact ⟨.json, (sound.registered ch .json).mp member⟩
  · intro exists_kind
    obtain ⟨kind, left⟩ := exists_kind
    have member := (sound.registered ch kind).mpr left
    cases kind with
    | events => exact .inl member
    | json => exact .inr member

/-- Every run keeps the order of the batches, the law of each subscriber and their isolation. -/
theorem broadcast_law {past : List (Broadcaster ε γ × Label ε)} {last : Broadcaster ε γ}
    (run : Run (system marshal) past last) (serializes : Meets (Serializes marshal) past) :
    observed publishedAt past = observed fedAt past ++ last.feed.toList ∧
      (∀ ch, BroadcastLaw marshal past last ch) ∧ Isolated marshal last := by
  refine ⟨published_eq_fed run, ?_, isolated marshal last⟩
  intro ch
  refine ⟨taken_eq_offered run serializes ch, ?_, (sound_run run serializes).registered_iff ch, ?_, ?_⟩
  · intro kind known
    apply received_eq_accepted run serializes
    intro other same
    rw [known] at same
    exact (Option.some.inj same).symm
  · rintro later state earlier rfl unoffered
    exact shrinks_until_offer state run serializes unoffered
  · rintro later state kind earlier rfl
    exact (silent_after_close state run serializes).2

/-- A file is closed after writing. -/
def closedEvent : Event := ⟨some [0x2f, 0x77], [0x61], 0x8⟩

/-- Two subscribers of different kinds get one batch. -/
theorem two_subscribers_served : ∃ past last,
    Run (system marshalEvents) past last ∧
      observed (takenAt 0) past = (observed (offeredAt 0) past).map Prod.fst ++
        (last.pending 0).toList ∧
      observed (takenAt 0) past = [[closedEvent]] ∧ observed (takenAt 1) past = [[closedEvent]] := by
  have begins : Run (system marshalEvents) [] .initial := .start rfl
  have run := begins.follow [.subscribe .json, .subscribe .events, .control (.addJsonChannel 0),
    .handle, .control (.addChannel 1), .handle, .publish [closedEvent], .take, .offer 1, .next,
    .offer 0, .next, .receive 0, .receive 1] rfl
  have text : (marshalEvents [closedEvent]).isSome = true := by decide +kernel
  have law := (broadcast_law run (by simp [Serializes, text])).2.1 0
  exact ⟨_, _, run, law.offered, rfl, rfl⟩

/-- These batches are taken while the channel of the subscriber has room. -/
def takenWithRoom (ch : Nat) (taken : Broadcaster ε γ × Label ε) : Option (List ε) :=
  (takenAt ch taken).filter fun _ => decide ((taken.1.buffered ch).length < capacity)

/-- A subscriber gets a batch that is taken while its channel is full if it receives in time. -/
theorem full_channel_served : ∃ past last,
    Run (system (some : List Nat → Option (List Nat))) past last ∧ last.phase = .selecting ∧
      last.kindAt 0 = some .events ∧
      observed (receivedAt 0) past ++ last.buffered 0 ≠
        (observed (takenWithRoom 0) past).filterMap (payloadFor some .events) := by
  have begins : Run (system (some : List Nat → Option (List Nat))) [] .initial := .start rfl
  have run := begins.follow ([.subscribe .events, .control (.addChannel 0), .handle] ++
    (List.replicate 10 [.publish [1], .take, .offer 0, .next]).flatten ++
    [.publish [2], .take, .receive 0, .offer 0, .next]) rfl
  refine ⟨_, _, run, rfl, rfl, ?_⟩
  intro same
  exact absurd (congrArg List.length same) (by decide)

end ClamavDbscan.FSWatcher.Broadcaster
