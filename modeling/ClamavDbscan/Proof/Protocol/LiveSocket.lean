import ClamavDbscan.Construction.Protocol.SocketPath

/-
This file decides when starting watchers leave the socket of a running watcher alone.
-/

namespace ClamavDbscan

/-- The process has bound its socket, and it has not begun to exit. -/
def SocketPhase.holds : SocketPhase → Bool
  | bound | listening | closing | serving => true
  | _ => false

namespace SocketHost

open Transition

variable {program : Nat → WatcherProgram} {host after : SocketHost} {process : Nat}

/-- The next step of the label removes the path in the name of this process. -/
def Unlinks (host : SocketHost) (label : Label) (process : Nat) : Prop :=
  label = .exit process ∨
    label = .call process ∧ (host.phase process = .closing ∨ ∃ probed, host.phase process = .refused probed)

/-- The step removes the path while it names the socket of another running process. -/
def Steals (host : SocketHost) (label : Label) : Prop :=
  ∃ process owner, host.Unlinks label process ∧ host.path = some owner ∧ owner ≠ process ∧
    host.phase owner ≠ .ended

/-- At most one process has a descriptor. Clients that connect to the path reach it, and they find no path once
it has removed the path. -/
structure Reached (host : SocketHost) : Prop where
  path : ∀ process, host.phase process = .serving → host.path = some process
  gone : ∀ process, host.phase process = .leaving → host.path = none
  one : ∀ first second, (host.phase first).hasDescriptor = true → (host.phase second).hasDescriptor = true →
    first = second

/-- A probe reaches no socket between its `bind` and its `listen`, and at the `unlink` the path still
names what has refused the probe. -/
def ProbeFresh (host : SocketHost) : Label → Prop
  | .call process =>
      match host.phase process with
      | .inUse => ∀ owner ∈ host.path, host.phase owner ≠ .bound
      | .refused probed => host.path = probed
      | _ => True
  | _ => True

instance (host : SocketHost) : (label : Label) → Decidable (host.ProbeFresh label)
  | .call process =>
      match phase : host.phase process with
      | .inUse => decidable_of_iff (∀ owner ∈ host.path, host.phase owner ≠ .bound)
          (by rw [ProbeFresh, phase])
      | .refused probed => decidable_of_iff (host.path = probed) (by rw [ProbeFresh, phase])
      | .created | .removed | .unlinked | .bound | .listening | .closing | .serving | .leaving | .ended =>
          isTrue (by simp [ProbeFresh, phase])
  | .deny _ | .exit _ | .quit _ | .die _ => isTrue trivial

/-- A process binds to the free path when no other is between its final `unlink` and its end. -/
def BoundApart (host : SocketHost) : Label → Prop
  | .call process => host.phase process = .created ∨ host.phase process = .unlinked →
      host.path = none → ∀ other, host.phase other ≠ .leaving
  | _ => True

/-- A process that holds its socket owns the path, and a refused probe has met a dead process. -/
structure Owned (host : SocketHost) : Prop where
  holder : ∀ process, (host.phase process).holds = true → host.path = some process
  named : ∀ owner, host.path = some owner →
    (host.phase owner).holds = true ∨ host.phase owner = .ended
  dead : ∀ process owner, host.phase process = .refused (some owner) → host.phase owner = .ended

@[simp] theorem setPhase_phase (phase : SocketPhase) (other : Nat) :
    (host.setPhase process phase).phase other = if other = process then phase else host.phase other := by
  exact Function.update_apply host.phase process phase other

/-- What another process does revives no process that has ended. -/
theorem ended_setPhase {owner : Nat} (alive : host.phase process ≠ .ended)
    (ended : host.phase owner = .ended) (phase : SocketPhase) :
    (host.setPhase process phase).phase owner = .ended := by
  have different : owner ≠ process := fun same => alive (same ▸ ended)
  rw [setPhase_phase, if_neg different]
  exact ended

namespace Owned

theorem initial : Owned .initial :=
  ⟨fun _ holds => absurd holds Bool.false_ne_true, nofun, fun _ _ => nofun⟩

/-- A process that holds nothing can change its phase, and a holder stays one until it ends. -/
theorem setPhase (owned : Owned host) {phase : SocketPhase} (alive : host.phase process ≠ .ended)
    (holds : phase.holds = true → (host.phase process).holds = true)
    (kept : (host.phase process).holds = true → phase.holds = true ∨ phase = .ended)
    (dead : ∀ owner, phase = .refused (some owner) → host.phase owner = .ended) :
    Owned (host.setPhase process phase) := by
  constructor
  · intro other held
    rw [setPhase_phase] at held
    split at held
    · rename_i same
      exact same ▸ owned.holder process (holds held)
    · exact owned.holder other held
  · intro owner path
    rcases owned.named owner path with held | ended
    · rw [setPhase_phase]
      split
      · rename_i same
        exact kept (same ▸ held)
      · exact .inl held
    · exact .inr (ended_setPhase alive ended phase)
  · intro other owner refused
    rw [setPhase_phase] at refused
    have ended : host.phase owner = .ended := by
      split at refused
      · exact dead owner refused
      · exact owned.dead other owner refused
    exact ended_setPhase alive ended phase

/-- A process dies without a change of the path. -/
theorem ends (owned : Owned host) (alive : host.phase process ≠ .ended) :
    Owned (host.setPhase process .ended) :=
  owned.setPhase alive (fun held => absurd held Bool.false_ne_true) (fun _ => .inr rfl) (fun _ => nofun)

/-- A process that holds nothing leaves the path to the others. -/
theorem moves (owned : Owned host) {phase : SocketPhase} (alive : host.phase process ≠ .ended)
    (before : (host.phase process).holds = false) (after : phase.holds = false)
    (dead : ∀ owner, phase = .refused (some owner) → host.phase owner = .ended) :
    Owned (host.setPhase process phase) := by
  apply owned.setPhase alive _ _ dead
  · intro held
    rw [after] at held
    contradiction
  · intro held
    rw [before] at held
    contradiction

/-- The path is removed when only this process can hold it. -/
theorem clear (owned : Owned host) {phase : SocketPhase} (alive : host.phase process ≠ .ended)
    (alone : ∀ other, (host.phase other).holds = true → other = process)
    (after : phase.holds = false) (fresh : ∀ probed, phase ≠ .refused probed) :
    Owned ({ host with path := none }.setPhase process phase) := by
  constructor
  · intro other held
    rw [setPhase_phase] at held
    split at held
    · rw [after] at held
      contradiction
    · rename_i different
      exact absurd (alone other held) different
  · exact nofun
  · intro other owner refused
    rw [setPhase_phase] at refused
    split at refused
    · exact absurd refused (fresh _)
    · exact ended_setPhase alive (owned.dead other owner refused) phase

/-- A process takes a path that does not exist. -/
theorem bind (owned : Owned host) {busy : SocketPhase} (alive : host.phase process ≠ .ended)
    (before : (host.phase process).holds = false) (after : busy.holds = false)
    (fresh : ∀ probed, busy ≠ .refused probed) : Owned (host.bind process busy) := by
  unfold SocketHost.bind
  cases path : host.path with
  | some owner => exact owned.moves alive before after fun owner same => absurd same (fresh _)
  | none =>
      have alone : ∀ other, (host.phase other).holds = false := by
        intro other
        rw [Bool.eq_false_iff]
        intro held
        have same := owned.holder other held
        rw [path] at same
        contradiction
      constructor
      · intro other held
        rw [setPhase_phase] at held
        split at held
        · rename_i same
          rw [same]
          rfl
        · rw [show (host.phase other).holds = false from alone other] at held
          contradiction
      · intro owner same
        obtain rfl := Option.some.inj same
        rw [setPhase_phase, if_pos rfl]
        exact .inl rfl
      · intro other owner refused
        rw [setPhase_phase] at refused
        split at refused
        · contradiction
        · exact ended_setPhase alive (owned.dead other owner refused) .bound

/-- A probe that reaches no socket before its `listen` is refused by a dead process only. -/
theorem connect (owned : Owned host) (probing : host.phase process = .inUse)
    (fresh : ∀ owner ∈ host.path, host.phase owner ≠ .bound) :
    Owned (host.connect process) := by
  have alive : host.phase process ≠ .ended := by simp [probing]
  have before : (host.phase process).holds = false := by simp [probing, SocketPhase.holds]
  unfold SocketHost.connect
  cases path : host.path with
  | none => exact owned.moves alive before rfl nofun
  | some owner =>
      dsimp only
      split
      · exact owned.ends alive
      · rename_i refuses
        apply owned.moves alive before rfl
        intro other same
        obtain rfl := Option.some.inj (SocketPhase.refused.inj same)
        rcases owned.named owner path with held | ended
        · have notBound := fresh owner path
          cases phase : host.phase owner <;> simp_all [SocketPhase.holds, SocketPhase.listens]
        · exact ended

/-- An `unlink` of a dead socket keeps the path of every holder. -/
theorem unlink (owned : Owned host) {probed : Option Nat} (refused : host.phase process = .refused probed)
    (fresh : host.path = probed) {next : SocketPhase} (after : next.holds = false)
    (unprobed : ∀ probed, next ≠ .refused probed) : Owned (host.unlink process next) := by
  have alive : host.phase process ≠ .ended := by simp [refused]
  unfold SocketHost.unlink
  cases path : host.path with
  | none => exact owned.ends alive
  | some owner =>
      rw [← fresh, path] at refused
      have ended := owned.dead process owner refused
      apply owned.clear alive _ after unprobed
      intro other held
      have same := owned.holder other held
      rw [path] at same
      obtain rfl := Option.some.inj same
      rw [ended] at held
      contradiction

/-- The path is removed by its holder. -/
theorem leave (owned : Owned host) (held : (host.phase process).holds = true) {phase : SocketPhase}
    (after : phase.holds = false) (fresh : ∀ probed, phase ≠ .refused probed) :
    Owned ({ host with path := none }.setPhase process phase) := by
  have path := owned.holder process held
  have alive : host.phase process ≠ .ended := by
    intro ended
    rw [ended] at held
    contradiction
  have alone : ∀ other, (host.phase other).holds = true → other = process := by
    intro other held
    have same := owned.holder other held
    rw [path] at same
    exact (Option.some.inj same).symm
  exact owned.clear alive alone after fresh

/-- A holder of the path has another call to make, or it ends. -/
theorem goesOn (owned : Owned host) (held : (host.phase process).holds = true) {phase : SocketPhase}
    (kept : phase.holds = true ∨ phase = .ended) : Owned (host.setPhase process phase) := by
  apply owned.setPhase _ (fun _ => held) (fun _ => kept)
  · rintro owner rfl
    rcases kept with holds | ends <;> contradiction
  · intro ended
    rw [ended] at held
    contradiction

theorem nextCall (owned : Owned host) {afterUnlink afterChmod : SocketPhase}
    (known : afterUnlink = .unlinked ∨ afterUnlink = .removed) (closes : afterChmod = .ended ∨ afterChmod = .closing)
    (fresh : host.ProbeFresh (.call process))
    (taken : host.nextCall afterUnlink afterChmod process = some after) : Owned after := by
  unfold SocketHost.nextCall at taken
  cases phase : host.phase process with
  | created =>
      rw [phase] at taken
      obtain rfl := Option.some.inj taken
      exact owned.bind (by simp [phase]) (by rw [phase]; rfl) rfl nofun
  | inUse =>
      rw [phase] at taken
      obtain rfl := Option.some.inj taken
      rw [ProbeFresh, phase] at fresh
      exact owned.connect phase fresh
  | refused probed =>
      rw [phase] at taken
      obtain rfl := Option.some.inj taken
      rw [ProbeFresh, phase] at fresh
      rcases known with rfl | rfl <;> exact owned.unlink phase fresh rfl nofun
  | removed =>
      rw [phase] at taken
      obtain rfl := Option.some.inj taken
      apply owned.moves (by simp [phase]) (by rw [phase]; rfl)
      · split <;> rfl
      · intro owner
        split <;> exact nofun
  | unlinked =>
      rw [phase] at taken
      obtain rfl := Option.some.inj taken
      exact owned.bind (by simp [phase]) (by rw [phase]; rfl) rfl nofun
  | bound =>
      rw [phase] at taken
      obtain rfl := Option.some.inj taken
      exact owned.goesOn (by rw [phase]; rfl) (.inl rfl)
  | listening =>
      rw [phase] at taken
      obtain rfl := Option.some.inj taken
      apply owned.goesOn (by rw [phase]; rfl)
      split
      · exact closes.symm.imp (fun same => by rw [same]; rfl) id
      · exact .inl rfl
  | closing =>
      rw [phase] at taken
      obtain rfl := Option.some.inj taken
      exact owned.leave (by rw [phase]; rfl) rfl nofun
  | serving | leaving | ended =>
      rw [phase] at taken
      contradiction

/-- Every step with a fresh probe keeps the ownership. -/
theorem step {label : Label} (owned : Owned host) (fresh : host.ProbeFresh label)
    (taken : SocketHost.step program host label = some after) : Owned after := by
  cases label with
  | call process =>
      unfold SocketHost.step at taken
      dsimp only at taken
      split at taken
      · exact owned.nextCall (.inl rfl) (.inl rfl) fresh taken
      · exact owned.nextCall (.inr rfl) (.inr rfl) fresh taken
  | deny process =>
      obtain ⟨listening, same⟩ := Option.ite_none_right_eq_some.mp taken
      obtain rfl := Option.some.inj same
      apply owned.goesOn (by rw [listening]; rfl)
      split
      · exact .inr rfl
      · exact .inl rfl
  | exit process =>
      obtain ⟨serving, same⟩ := Option.ite_none_right_eq_some.mp taken
      obtain rfl := Option.some.inj same
      exact owned.leave (by rw [serving]; rfl) rfl nofun
  | quit process =>
      obtain ⟨leaving, same⟩ := Option.ite_none_right_eq_some.mp taken
      obtain rfl := Option.some.inj same
      exact owned.ends (by simp [leaving])
  | die process =>
      obtain ⟨alive, same⟩ := Option.ite_none_right_eq_some.mp taken
      obtain rfl := Option.some.inj same
      exact owned.ends alive

/-- A step with a fresh probe steals no path. -/
theorem not_steals {label : Label} (owned : Owned host) (fresh : host.ProbeFresh label)
    (taken : SocketHost.step program host label = some after) : ¬ host.Steals label := by
  intro steals
  obtain ⟨process, owner, unlinks, path, different, alive⟩ := steals
  rcases unlinks with rfl | calls
  · obtain ⟨serving, _⟩ := Option.ite_none_right_eq_some.mp taken
    have own := owned.holder process (by rw [serving]; rfl)
    rw [path] at own
    exact different (Option.some.inj own)
  · obtain ⟨rfl, closing | ⟨probed, refused⟩⟩ := calls
    · have own := owned.holder process (by rw [closing]; rfl)
      rw [path] at own
      exact different (Option.some.inj own)
    · rw [ProbeFresh, refused] at fresh
      rw [← fresh, path] at refused
      exact alive (owned.dead process owner refused)

end Owned

/-- The steps change a path and the leaving processes in these ways only. -/
structure Moves (host : SocketHost) (label : Label) (after : SocketHost) : Prop where
  leaves : ∀ process, after.phase process = .leaving → host.phase process = .leaving ∨ label = .exit process
  exits : ∀ process, label = .exit process → host.phase process = .serving ∧ after.path = none
  binds : after.path = host.path ∨ after.path = none ∨ host.path = none ∧ ∃ process, label = .call process ∧
    (host.phase process = .created ∨ host.phase process = .unlinked)

theorem setPhase_leaving {phase : SocketPhase} {other : Nat} (stays : phase ≠ .leaving)
    (leaving : (host.setPhase process phase).phase other = .leaving) : host.phase other = .leaving := by
  rw [setPhase_phase] at leaving
  split at leaving
  · contradiction
  · exact leaving

theorem moves_setPhase {phase : SocketPhase} {label : Label} (other : ∀ process, label ≠ .exit process)
    (stays : phase ≠ .leaving) : Moves host label (host.setPhase process phase) :=
  ⟨fun _ leaving => .inl (setPhase_leaving stays leaving), fun process same => absurd same (other process), .inl rfl⟩

theorem moves_clear {phase : SocketPhase} {label : Label} (other : ∀ process, label ≠ .exit process)
    (stays : phase ≠ .leaving) : Moves host label ({ host with path := none }.setPhase process phase) :=
  ⟨fun _ leaving => .inl (setPhase_leaving stays leaving), fun process same => absurd same (other process),
    .inr (.inl rfl)⟩

theorem moves_bind {busy : SocketPhase} (stays : busy ≠ .leaving)
    (binding : host.phase process = .created ∨ host.phase process = .unlinked) :
    Moves host (.call process) (host.bind process busy) := by
  unfold bind
  cases path : host.path with
  | some owner => exact moves_setPhase nofun stays
  | none =>
      refine ⟨fun _ leaving => .inl (setPhase_leaving (by decide) leaving), nofun, .inr (.inr ⟨path, ?_⟩)⟩
      exact ⟨process, rfl, binding⟩

theorem moves_nextCall {afterUnlink afterChmod : SocketPhase} (unlink : afterUnlink ≠ .leaving)
    (chmod : afterChmod ≠ .leaving) (taken : host.nextCall afterUnlink afterChmod process = some after) :
    Moves host (.call process) after := by
  unfold nextCall at taken
  cases phase : host.phase process with
  | created =>
      rw [phase] at taken
      obtain rfl := Option.some.inj taken
      exact moves_bind (by decide) (.inl phase)
  | inUse =>
      rw [phase] at taken
      obtain rfl := Option.some.inj taken
      unfold connect
      split
      · exact moves_setPhase nofun nofun
      · split <;> exact moves_setPhase nofun nofun
  | refused probed =>
      rw [phase] at taken
      obtain rfl := Option.some.inj taken
      unfold SocketHost.unlink
      split
      · exact moves_setPhase nofun nofun
      · exact moves_clear nofun unlink
  | removed =>
      rw [phase] at taken
      obtain rfl := Option.some.inj taken
      exact moves_setPhase nofun (by split <;> decide)
  | unlinked =>
      rw [phase] at taken
      obtain rfl := Option.some.inj taken
      exact moves_bind (by decide) (.inr phase)
  | bound =>
      rw [phase] at taken
      obtain rfl := Option.some.inj taken
      exact moves_setPhase nofun nofun
  | listening =>
      rw [phase] at taken
      obtain rfl := Option.some.inj taken
      exact moves_setPhase nofun (by split <;> [exact chmod; decide])
  | closing =>
      rw [phase] at taken
      obtain rfl := Option.some.inj taken
      exact moves_clear nofun nofun
  | serving | leaving | ended =>
      rw [phase] at taken
      contradiction

theorem step_moves {label : Label} (taken : step program host label = some after) : Moves host label after := by
  cases label with
  | call process =>
      unfold step at taken
      dsimp only at taken
      split at taken <;> exact moves_nextCall (by decide) (by decide) taken
  | deny process =>
      obtain ⟨_, same⟩ := Option.ite_none_right_eq_some.mp taken
      obtain rfl := Option.some.inj same
      exact moves_setPhase nofun (by split <;> decide)
  | exit process =>
      obtain ⟨serving, same⟩ := Option.ite_none_right_eq_some.mp taken
      obtain rfl := Option.some.inj same
      refine ⟨fun other leaving => ?_, ?_, .inr (.inl rfl)⟩
      · rw [setPhase_phase] at leaving
        split at leaving
        · rename_i same
          exact .inr (congrArg Label.exit same.symm)
        · exact .inl leaving
      · intro other same
        obtain rfl := Label.exit.inj same
        exact ⟨serving, rfl⟩
  | quit process =>
      obtain ⟨_, same⟩ := Option.ite_none_right_eq_some.mp taken
      obtain rfl := Option.some.inj same
      exact moves_setPhase nofun nofun
  | die process =>
      obtain ⟨_, same⟩ := Option.ite_none_right_eq_some.mp taken
      obtain rfl := Option.some.inj same
      exact moves_setPhase nofun nofun

/-- A process between its final `unlink` and its end is the only one, and no path exists. -/
structure Alone (host : SocketHost) : Prop where
  gone : ∀ process, host.phase process = .leaving → host.path = none
  one : ∀ first second, host.phase first = .leaving → host.phase second = .leaving → first = second

theorem Alone.step {label : Label} (alone : Alone host) (owned : Owned host) (apart : host.BoundApart label)
    (taken : SocketHost.step program host label = some after) : Alone after := by
  obtain ⟨leaves, exits, binds⟩ := step_moves taken
  -- A process can only exit while no other leaves, since it owns the path.
  have first (process other : Nat) (exit : label = .exit process) : host.phase other ≠ .leaving := by
    intro leaving
    have path := owned.holder process (by rw [(exits process exit).1]; rfl)
    rw [alone.gone other leaving] at path
    contradiction
  constructor
  · intro process leaving
    rcases leaves process leaving with before | exit
    · have free := alone.gone process before
      rcases binds with same | none | ⟨_, binder, rfl, phase⟩
      · exact same.trans free
      · exact none
      · exact absurd before (apart phase free process)
    · exact (exits process exit).2
  · intro one other leaving others
    rcases leaves one leaving with before | exit <;> rcases leaves other others with earlier | exits
    · exact alone.one one other before earlier
    · exact absurd before (first other one exits)
    · exact absurd earlier (first one other exit)
    · exact Label.exit.inj (exit.symm.trans exits)

/-- The holder of the path and a process that has removed it are the only ones with a descriptor. -/
theorem Alone.reached (alone : Alone host) (owned : Owned host) : Reached host := by
  have path : ∀ process, host.phase process = .serving → host.path = some process :=
    fun process serving => owned.holder process (by rw [serving]; rfl)
  have cases (process : Nat) (descriptor : (host.phase process).hasDescriptor = true) :
      host.phase process = .serving ∨ host.phase process = .leaving := by
    cases phase : host.phase process <;> simp_all [SocketPhase.hasDescriptor]
  refine ⟨path, alone.gone, fun first second left right => ?_⟩
  rcases cases first left with serving | leaving <;> rcases cases second right with serves | leaves
  · exact Option.some.inj ((path first serving).symm.trans (path second serves))
  · cases (path first serving).symm.trans (alone.gone second leaves)
  · cases (alone.gone first leaving).symm.trans (path second serves)
  · exact alone.one first second leaving leaves

variable {past : List (SocketHost × Label)} {last : SocketHost}

theorem owned_run (run : Run (system program) past last) (fresh : Meets ProbeFresh past) :
    Throughout Owned past last := by
  apply run.throughout ProbeFresh Owned _ _ fresh
  · intro host begins
    obtain rfl : host = initial := begins
    exact .initial
  · intro host label after owned here taken
    exact owned.step here taken

theorem reached_run (run : Run (system program) past last) (fresh : Meets ProbeFresh past)
    (apart : Meets BoundApart past) : Throughout Reached past last := by
  have both := run.throughout (fun host label => host.ProbeFresh label ∧ host.BoundApart label)
    (fun host => Owned host ∧ Alone host) ?_ ?_ (fresh.and apart)
  · exact ⟨both.1.2.reached both.1.1, fun taken member =>
      (both.2 taken member).2.reached (both.2 taken member).1⟩
  · intro host begins
    obtain rfl : host = initial := begins
    exact ⟨.initial, ⟨nofun, nofun⟩⟩
  · intro host label after invariant here taken
    exact ⟨invariant.1.step here.1 taken, invariant.2.step invariant.1 here.2 taken⟩

/-- If all probes of a run are fresh, and no process binds during the exit of another, no process steals the socket
of another, and at any time at most one process has a descriptor, which clients reach. -/
theorem live_socket_kept (run : Run (system program) past last) (fresh : Meets ProbeFresh past)
    (apart : Meets BoundApart past) :
    (∀ taken ∈ past, ¬ taken.1.Steals taken.2) ∧ Throughout Reached past last := by
  have owned := owned_run run fresh
  constructor
  · intro taken member
    obtain ⟨after, moved, _⟩ := run.after_step owned taken member
    exact (owned.2 taken member).not_steals (fresh taken member) moved
  · exact reached_run run fresh apart

-- Without the second condition a watcher serves while another is between its final `unlink` and its end.
example : (follow (system fun _ => .c) [.call 0, .call 0, .call 0, .exit 0, .call 1, .call 1, .call 1]
    ([], .initial)).any (fun reached =>
      (reached.2.phase 0).hasDescriptor && (reached.2.phase 1).hasDescriptor) = true := by decide

/-- Every process that leaves has taken its exit. -/
theorem exited_of_leaving (run : Run (system program) past last) {process : Nat}
    (leaving : last.phase process = .leaving) : ∃ taken ∈ past, taken.2 = .exit process := by
  induction run with
  | start begins =>
      obtain rfl := begins
      contradiction
  | @next past host after label earlier stepped ih =>
      rcases (step_moves stepped).leaves process leaving with before | exit
      · obtain ⟨taken, member, same⟩ := ih before
        exact ⟨taken, List.mem_cons_of_mem _ member, same⟩
      · exact ⟨(host, label), List.mem_cons_self, exit⟩

/-- No process binds during an exit if there is none. -/
theorem boundApart_of_stays (run : Run (system program) past last)
    (stays : ∀ taken ∈ past, (taken.2 matches .exit _) = false) : Meets BoundApart past := by
  intro taken member
  obtain ⟨host, label⟩ := taken
  obtain ⟨later, earlier, rfl⟩ := List.append_of_mem member
  obtain ⟨_, prior, _⟩ := run.split
  have none (other : Nat) : host.phase other ≠ .leaving := by
    intro leaving
    obtain ⟨exit, before, same⟩ := exited_of_leaving prior leaving
    have stay := stays exit (List.mem_append_right _ (List.mem_cons_of_mem _ before))
    rw [same] at stay
    contradiction
  cases label with
  | call process => exact fun _ _ => none
  | deny | exit | quit | die => trivial

/-- A watcher that starts after another has died takes its path over. -/
theorem dead_socket_replaced : ∃ past last, Run (system fun _ => .c) past last ∧
    last.phase 0 = .ended ∧ last.phase 1 = .serving ∧ last.Reached := by
  have begins : Run (system fun _ => .c) [] .initial := .start rfl
  have run := begins.follow [.call 0, .call 0, .call 0, .die 0, .call 1, .call 1, .call 1, .call 1,
    .call 1, .call 1] rfl
  have kept := live_socket_kept run (by decide) (boundApart_of_stays run (by decide))
  exact ⟨_, _, run, rfl, rfl, kept.2.1⟩

/-- A second watcher takes the path of a first one that does not listen yet, and both serve. -/
theorem live_socket_stolen : ∃ past last, Run (system fun _ => .c) past last ∧
    (∃ taken ∈ past, taken.1.Steals taken.2) ∧ last.phase 0 = .serving ∧ last.phase 1 = .serving ∧
      last.path = some 1 := by
  have begins : Run (system fun _ => .c) [] .initial := .start rfl
  have run := begins.follow [.call 0, .call 1, .call 1, .call 1, .call 1, .call 1, .call 1, .call 0,
    .call 0] rfl
  exact ⟨_, _, run, ⟨_, .tail _ (.tail _ (.tail _ (.tail _ (.tail _ (.head _))))), 1, 0,
    .inr ⟨rfl, .inr ⟨some 0, rfl⟩⟩, rfl, by decide, by decide⟩, rfl, rfl, rfl⟩

end SocketHost

end ClamavDbscan
