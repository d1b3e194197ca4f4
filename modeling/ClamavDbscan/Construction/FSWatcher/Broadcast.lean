import ClamavDbscan.Library.Transition
import Mathlib.Data.List.Basic

/-
This file models the goroutines of the Go watcher and the channels between them.
-/

namespace ClamavDbscan.FSWatcher

/-- A subscription gets the batches themselves or their JSON text. -/
inductive Kind where
  | events
  | json
  deriving DecidableEq, Repr

/-- The control channel carries four messages. -/
inductive Message where
  | addChannel (ch : Nat)
  | removeChannel (ch : Nat)
  | addJsonChannel (ch : Nat)
  | removeJsonChannel (ch : Nat)
  deriving DecidableEq, Repr

namespace Message

def ch : Message → Nat
  | addChannel ch | removeChannel ch | addJsonChannel ch | removeJsonChannel ch => ch

/-- Each kind of subscription has its own message for `AddSubscription`. -/
def add (ch : Nat) : Kind → Message
  | .events => addChannel ch
  | .json => addJsonChannel ch

/-- Each kind of subscription has its own message for `Close`. -/
def remove (ch : Nat) : Kind → Message
  | .events => removeChannel ch
  | .json => removeJsonChannel ch

end Message

/-- A channel of an event subscription holds batches, and one of a JSON subscription holds texts. -/
inductive Payload (ε γ : Type) where
  | events (batch : List ε)
  | json (serialized : γ)
  deriving DecidableEq

/-- Every subscription makes its own channel. -/
structure Channel (ε γ : Type) where
  kind : Kind
  buffer : List (Payload ε γ)

/-- The goroutine `run` is at its select statement, or in one of the two branches. -/
inductive Phase (ε γ : Type) where
  | selecting
  | handling (message : Message)
  -- The iteration over a map has these channels left.
  | offering (kind : Kind) (events : List ε) (payload : Payload ε γ) (left : List Nat)

/-- Channels are numbered in creation order; a call that sends on an unbuffered channel waits in
`calls` or in `feed` until `run` receives. -/
structure Broadcaster (ε γ : Type) where
  channels : List (Channel ε γ)
  subscribers : List Nat
  jsonSubscribers : List Nat
  calls : List Message
  feed : Option (List ε)
  phase : Phase ε γ

/-- `make` gives every channel this capacity. -/
def capacity : Nat := 10

namespace Broadcaster

variable {ε γ : Type}

def initial : Broadcaster ε γ := ⟨[], [], [], [], none, .selecting⟩

/-- A map has each key once. -/
def insert (keys : List Nat) (ch : Nat) : List Nat := if ch ∈ keys then keys else keys ++ [ch]

def delete (keys : List Nat) (ch : Nat) : List Nat := keys.filter (· ≠ ch)

/-- `AddSubscription` makes a channel and waits until `run` has received its message. -/
def addSubscription (state : Broadcaster ε γ) (kind : Kind) : Broadcaster ε γ :=
  { state with
    channels := state.channels ++ [⟨kind, []⟩]
    calls := state.calls ++ [.add state.channels.length kind] }

/-- The first branch of the select statement changes one of the maps. -/
def handle (state : Broadcaster ε γ) (message : Message) : Broadcaster ε γ :=
  match message with
  | .addChannel ch => { state with subscribers := insert state.subscribers ch }
  | .removeChannel ch => { state with subscribers := delete state.subscribers ch }
  | .addJsonChannel ch => { state with jsonSubscribers := insert state.jsonSubscribers ch }
  | .removeJsonChannel ch => { state with jsonSubscribers := delete state.jsonSubscribers ch }

/-- The second branch ignores an empty batch, and it begins with the event subscriptions. -/
def take (state : Broadcaster ε γ) (events : List ε) : Broadcaster ε γ :=
  if events = [] then { state with feed := none }
  else
    { state with feed := none, phase := .offering .events events (.events events) state.subscribers }

/-- A send takes place if the channel has room, and otherwise the batch is dropped. -/
def offer (channel : Channel ε γ) (payload : Payload ε γ) : Channel ε γ :=
  if channel.buffer.length < capacity then { channel with buffer := channel.buffer ++ [payload] }
  else channel

/-- The iteration over the JSON subscriptions follows the one over the event subscriptions, unless
there are none or the text cannot be made. -/
def next (marshal : List ε → Option γ) (state : Broadcaster ε γ) (events : List ε) :
    Kind → Broadcaster ε γ
  | .events =>
      if state.jsonSubscribers = [] then { state with phase := .selecting }
      else
        match marshal events with
        | none => { state with phase := .selecting }
        | some serialized =>
            { state with phase := .offering .json events (.json serialized) state.jsonSubscribers }
  | .json => { state with phase := .selecting }

/-- The goroutines take their steps in any order. -/
inductive Label (ε : Type) where
  -- A subscriber calls `AddSubscription` or `AddJsonSubscription`.
  | subscribe (kind : Kind)
  -- A subscriber calls `Close` after its subscription has been returned.
  | close (ch : Nat)
  | receive (ch : Nat)
  -- The reader sends the result of `ReadEvents`.
  | publish (events : List ε)
  -- The steps of `run`: a message is received and handled, or a batch is taken and offered.
  | control (message : Message)
  | handle
  | take
  | offer (ch : Nat)
  | next

def step (marshal : List ε → Option γ) (state : Broadcaster ε γ) :
    Label ε → Option (Broadcaster ε γ)
  | .subscribe kind => some (state.addSubscription kind)
  | .close ch =>
      match state.channels[ch]? with
      | none => none
      | some channel =>
          if .add ch channel.kind ∈ state.calls then none
          else some { state with calls := state.calls ++ [.remove ch channel.kind] }
  | .receive ch =>
      match state.channels[ch]? with
      | some ⟨kind, _ :: others⟩ =>
          some { state with channels := state.channels.set ch ⟨kind, others⟩ }
      | _ => none
  | .publish events =>
      if state.feed.isNone then some { state with feed := some events } else none
  | .control message =>
      match state.phase with
      | .selecting =>
          if message ∈ state.calls then
            some { state with calls := state.calls.erase message, phase := .handling message }
          else none
      | _ => none
  | .handle =>
      match state.phase with
      | .handling message => some { state.handle message with phase := .selecting }
      | _ => none
  | .take =>
      match state.phase, state.feed with
      | .selecting, some events => some (state.take events)
      | _, _ => none
  | .offer ch =>
      match state.phase with
      | .offering kind events payload left =>
          if ch ∈ left then
            some { state with
              channels := state.channels.modify ch fun channel => offer channel payload
              phase := .offering kind events payload (left.erase ch) }
          else none
      | _ => none
  | .next =>
      match state.phase with
      | .offering kind events _ [] => some (state.next marshal events kind)
      | _ => none

def system (marshal : List ε → Option γ) : Transition.System (Broadcaster ε γ) (Label ε) :=
  ⟨(· = initial), step marshal⟩

end Broadcaster

end ClamavDbscan.FSWatcher
