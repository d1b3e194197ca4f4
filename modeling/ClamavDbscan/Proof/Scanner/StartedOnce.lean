import ClamavDbscan.Construction.Scanner.EnsureClamd

/-
This file decides when no call of `ensure_clamd` returns before `clamd` has answered.
-/

namespace ClamavDbscan.EnsureClamd

open Transition

variable {mgr after last : EnsureClamd} {caller : Nat} {phase : EnsurePhase}
  {past : List (EnsureClamd × Label)}

def AtMostOne (mgr : EnsureClamd) : Prop := mgr.processes ≤ 1

def NeverEarly (mgr : EnsureClamd) : Prop :=
  ∀ caller, mgr.phase caller = .returned → mgr.pong = true

/-- A check of the handle, with or without the lock, finds no process or one that has answered. -/
def ChecksLate (mgr : EnsureClamd) : Label → Prop
  | .call _ _ | .wake _ _ => mgr.clamd = none ∨ mgr.pong = true
  | _ => True

instance (mgr : EnsureClamd) : (label : Label) → Decidable (mgr.ChecksLate label)
  | .call _ _ | .wake _ _ => inferInstanceAs (Decidable (_ ∨ _))
  | .spawned _ _ _ | .look _ _ | .connected _ _ | .answered _ _ | .resume _ | .socket _ =>
      isTrue trivial

/-- Only the holder of the lock is inside, and the handle is set with the only process. -/
structure Guarded (mgr : EnsureClamd) : Prop where
  holds : ∀ caller, (mgr.phase caller).inside = true → mgr.holder = some caller
  unset : mgr.clamd = none → mgr.processes = 0
  one : mgr.processes ≤ 1
  spawning : ∀ caller, mgr.phase caller = .spawning → mgr.clamd = none

@[simp] theorem setPhase_phase (other : Nat) :
    (mgr.setPhase caller phase).phase other = if other = caller then phase else mgr.phase other :=
  Function.update_apply mgr.phase caller phase other

theorem lookForSocket_setPhase (phase : EnsurePhase) (unlinked : Bool) :
    (mgr.setPhase caller phase).lookForSocket caller unlinked = mgr.lookForSocket caller unlinked := by
  simp [lookForSocket, setPhase, release]

namespace Guarded

theorem initial (begins : Initial mgr) : Guarded mgr := by
  obtain ⟨unset, _, _, _, uncalled, none, _⟩ := begins
  constructor
  · intro caller inside
    rw [uncalled caller] at inside
    contradiction
  · exact fun _ => none
  · rw [none]
    exact Nat.zero_le 1
  · exact fun _ _ => unset

/-- The holder of the lock can go on inside, and the others stay outside. -/
theorem setPhase (guarded : Guarded mgr) (held : phase.inside = true → mgr.holder = some caller)
    (unset : phase = .spawning → mgr.clamd = none) : Guarded (mgr.setPhase caller phase) := by
  constructor
  · intro other inside
    rw [setPhase_phase] at inside
    split at inside
    · rename_i same
      exact same ▸ held inside
    · exact guarded.holds other inside
  · exact guarded.unset
  · exact guarded.one
  · intro other spawning
    rw [setPhase_phase] at spawning
    split at spawning
    · exact unset spawning
    · exact guarded.spawning other spawning

/-- The holder leaves, and nobody is inside. -/
theorem release (guarded : Guarded mgr) (held : mgr.holder = some caller)
    (outside : phase.inside = false) : Guarded (mgr.release caller phase) := by
  constructor
  · intro other inside
    rw [EnsureClamd.release, setPhase_phase] at inside
    split at inside
    · rw [outside] at inside
      contradiction
    · rename_i different
      have same := Option.some.inj (held.symm.trans (guarded.holds other inside))
      exact absurd same.symm different
  · exact guarded.unset
  · exact guarded.one
  · intro other spawning
    rw [EnsureClamd.release, setPhase_phase] at spawning
    split at spawning
    · rw [spawning] at outside
      contradiction
    · exact guarded.spawning other spawning

/-- A free lock can be taken. -/
theorem take (guarded : Guarded mgr) (free : mgr.holder = none) :
    Guarded { mgr with holder := some caller } := by
  refine ⟨?_, guarded.unset, guarded.one, guarded.spawning⟩
  intro other inside
  have held := guarded.holds other inside
  rw [free] at held
  contradiction

theorem enter (guarded : Guarded mgr) (free : mgr.holder = none) (configured : Bool) :
    Guarded (mgr.enter caller configured) := by
  have taken : Guarded { mgr with holder := some caller } := guarded.take free
  unfold EnsureClamd.enter
  dsimp only
  split
  · exact taken.release rfl rfl
  · rename_i unset
    split
    · exact taken.setPhase (fun _ => rfl) fun _ => not_not.mp unset
    · exact taken.release rfl rfl

theorem lookForSocket (guarded : Guarded mgr) (held : mgr.holder = some caller) (unlinked : Bool) :
    Guarded (mgr.lookForSocket caller unlinked) := by
  unfold EnsureClamd.lookForSocket
  split
  · split
    · exact guarded.setPhase (fun _ => held) nofun
    · exact guarded.release held rfl
  · exact guarded.setPhase (fun _ => held) nofun

/-- The handle is set once, since the only process is created while it is not set. -/
theorem spawned (guarded : Guarded mgr) (spawning : mgr.phase caller = .spawning) :
    Guarded ({ mgr with clamd := some mgr.processes, processes := mgr.processes + 1 }.setPhase caller
      .awaitingSocket) := by
  have held : mgr.holder = some caller := guarded.holds caller (by rw [spawning]; rfl)
  have none : mgr.processes = 0 := guarded.unset (guarded.spawning caller spawning)
  constructor
  · intro other inside
    rw [setPhase_phase] at inside
    split at inside
    · rename_i same
      exact same ▸ held
    · exact guarded.holds other inside
  · exact nofun
  · exact Nat.succ_le_succ (Nat.le_of_eq none)
  · intro other spawns
    rw [setPhase_phase] at spawns
    split at spawns
    · contradiction
    · rename_i different
      have holds := guarded.holds other (by rw [show mgr.phase other = .spawning from spawns]; rfl)
      exact absurd (Option.some.inj (holds.symm.trans held)) different

theorem step {label : Label} (guarded : Guarded mgr) (taken : mgr.step label = some after) :
    Guarded after := by
  cases label with
  | call caller configured =>
      simp only [EnsureClamd.step] at taken
      split at taken
      · contradiction
      · split at taken
        · obtain rfl := Option.some.inj taken
          exact guarded.setPhase nofun nofun
        · split at taken
          · rename_i free
            obtain rfl := Option.some.inj taken
            exact guarded.enter free.1 configured
          · obtain rfl := Option.some.inj taken
            have queued : Guarded { mgr with waiters := mgr.waiters ++ [caller] } :=
              ⟨guarded.holds, guarded.unset, guarded.one, guarded.spawning⟩
            exact queued.setPhase nofun nofun
  | wake caller configured =>
      simp only [EnsureClamd.step] at taken
      split at taken
      · rename_i free
        obtain rfl := Option.some.inj taken
        have woken : Guarded { mgr with waiters := mgr.waiters.tail } :=
          ⟨guarded.holds, guarded.unset, guarded.one, guarded.spawning⟩
        exact woken.enter free.1 configured
      · contradiction
  | spawned caller created unlinked =>
      simp only [EnsureClamd.step, ite_not] at taken
      split at taken
      · rename_i spawning
        have held : mgr.holder = some caller := guarded.holds caller (by rw [spawning]; rfl)
        split at taken
        · obtain rfl := Option.some.inj taken
          rw [← lookForSocket_setPhase .awaitingSocket]
          exact (guarded.spawned spawning).lookForSocket held unlinked
        · obtain rfl := Option.some.inj taken
          exact guarded.release held rfl
      · contradiction
  | look caller unlinked =>
      simp only [EnsureClamd.step] at taken
      split at taken
      · rename_i waits
        obtain rfl := Option.some.inj taken
        exact guarded.lookForSocket (guarded.holds caller (by rw [waits]; rfl)) unlinked
      · contradiction
  | connected caller opened =>
      simp only [EnsureClamd.step] at taken
      split at taken
      · rename_i waits
        obtain rfl := Option.some.inj taken
        refine guarded.setPhase (fun _ => guarded.holds caller (by rw [waits]; rfl)) ?_
        cases opened <;> exact nofun
      · contradiction
  | answered caller pong =>
      simp only [EnsureClamd.step, ite_not] at taken
      split at taken
      · rename_i waits
        have held : mgr.holder = some caller := guarded.holds caller (by rw [waits]; rfl)
        split at taken
        · obtain rfl := Option.some.inj taken
          have told : Guarded { mgr with pong := true, clamdOutputEnabled := false } :=
            ⟨guarded.holds, guarded.unset, guarded.one, guarded.spawning⟩
          exact told.release held rfl
        · obtain rfl := Option.some.inj taken
          exact guarded.setPhase (fun _ => held) nofun
      · contradiction
  | resume caller =>
      simp only [EnsureClamd.step] at taken
      split at taken
      · rename_i waits
        obtain rfl := Option.some.inj taken
        exact guarded.setPhase (fun _ => guarded.holds caller (by rw [waits]; rfl)) nofun
      · contradiction
  | socket present =>
      obtain rfl := Option.some.inj taken
      exact ⟨guarded.holds, guarded.unset, guarded.one, guarded.spawning⟩

end Guarded

section NeverEarly

theorem neverEarly_setPhase (early : NeverEarly mgr) :
    NeverEarly (mgr.setPhase caller phase) ↔ (phase = .returned → mgr.pong = true) := by
  constructor
  · intro later returned
    exact later caller (by rw [setPhase_phase, if_pos rfl, returned])
  · intro told other returned
    rw [setPhase_phase] at returned
    split at returned
    · exact told returned
    · exact early other returned

theorem neverEarly_enter (early : NeverEarly mgr) (configured : Bool) :
    NeverEarly (mgr.enter caller configured) ↔ mgr.clamd = none ∨ mgr.pong = true := by
  have taken : NeverEarly { mgr with holder := some caller } := early
  have released : NeverEarly { mgr with holder := none } := early
  unfold enter
  dsimp only
  split
  · rename_i set
    rw [release, neverEarly_setPhase released, forall_prop_of_true rfl, or_iff_right set]
  · rename_i unset
    rw [or_iff_left_of_imp fun _ => not_not.mp unset]
    refine iff_of_true ?_ (not_not.mp unset)
    split
    · exact (neverEarly_setPhase taken).mpr nofun
    · exact (neverEarly_setPhase released).mpr nofun

theorem neverEarly_lookForSocket (early : NeverEarly mgr) (unlinked : Bool) :
    NeverEarly (mgr.lookForSocket caller unlinked) := by
  have released : NeverEarly { mgr with holder := none } := early
  unfold lookForSocket
  split
  · split
    · exact (neverEarly_setPhase early).mpr nofun
    · exact (neverEarly_setPhase released).mpr nofun
  · exact (neverEarly_setPhase early).mpr nofun

/-- A step lets no call return early exactly if its check does not. -/
theorem neverEarly_step {label : Label} (early : NeverEarly mgr)
    (taken : mgr.step label = some after) : NeverEarly after ↔ mgr.ChecksLate label := by
  cases label with
  | call caller configured =>
      simp only [step] at taken
      split at taken
      · contradiction
      · split at taken
        · rename_i set
          obtain rfl := Option.some.inj taken
          rw [neverEarly_setPhase early, forall_prop_of_true rfl, ChecksLate, or_iff_right set]
        · rename_i unset
          split at taken
          · obtain rfl := Option.some.inj taken
            exact neverEarly_enter early configured
          · obtain rfl := Option.some.inj taken
            have queued : NeverEarly { mgr with waiters := mgr.waiters ++ [caller] } := early
            exact iff_of_true ((neverEarly_setPhase queued).mpr nofun) (.inl (not_not.mp unset))
  | wake caller configured =>
      simp only [step] at taken
      split at taken
      · obtain rfl := Option.some.inj taken
        have woken : NeverEarly { mgr with waiters := mgr.waiters.tail } := early
        exact neverEarly_enter woken configured
      · contradiction
  | spawned caller created unlinked =>
      refine iff_of_true ?_ trivial
      simp only [step, ite_not] at taken
      split at taken
      · split at taken
        · obtain rfl := Option.some.inj taken
          have started : NeverEarly
            { mgr with clamd := some mgr.processes, processes := mgr.processes + 1 } := early
          exact neverEarly_lookForSocket started unlinked
        · obtain rfl := Option.some.inj taken
          have released : NeverEarly { mgr with holder := none } := early
          exact (neverEarly_setPhase released).mpr nofun
      · contradiction
  | look caller unlinked =>
      refine iff_of_true ?_ trivial
      simp only [step] at taken
      split at taken
      · obtain rfl := Option.some.inj taken
        exact neverEarly_lookForSocket early unlinked
      · contradiction
  | connected caller opened =>
      refine iff_of_true ?_ trivial
      simp only [step] at taken
      split at taken
      · obtain rfl := Option.some.inj taken
        cases opened <;> exact (neverEarly_setPhase early).mpr nofun
      · contradiction
  | answered caller pong =>
      refine iff_of_true ?_ trivial
      simp only [step, ite_not] at taken
      split at taken
      · split at taken
        · obtain rfl := Option.some.inj taken
          exact fun _ _ => rfl
        · obtain rfl := Option.some.inj taken
          exact (neverEarly_setPhase early).mpr nofun
      · contradiction
  | resume caller =>
      refine iff_of_true ?_ trivial
      simp only [step] at taken
      split at taken
      · obtain rfl := Option.some.inj taken
        exact (neverEarly_setPhase early).mpr nofun
      · contradiction
  | socket present =>
      obtain rfl := Option.some.inj taken
      exact iff_of_true early trivial

end NeverEarly

theorem neverEarly_initial (begins : Initial mgr) : NeverEarly mgr := by
  intro caller returned
  rw [begins.2.2.2.2.1 caller] at returned
  contradiction

/-- At most one process is created in every run, and no call returns early exactly if every check of
the handle comes before the process or after its `PONG`. -/
theorem started_once_iff (run : Run system past last) :
    Throughout (fun mgr => AtMostOne mgr ∧ NeverEarly mgr) past last ↔ Meets ChecksLate past := by
  constructor
  · intro holds taken member
    obtain ⟨after, stepped, _, early⟩ := run.after_step holds taken member
    exact (neverEarly_step (holds.2 taken member).2 stepped).mp early
  · intro met
    have invariant := run.throughout ChecksLate (fun mgr => Guarded mgr ∧ NeverEarly mgr)
      (fun mgr begins => ⟨.initial begins, neverEarly_initial begins⟩)
      (fun mgr label after before late taken =>
        ⟨before.1.step taken, (neverEarly_step before.2 taken).mpr late⟩) met
    exact ⟨⟨invariant.1.1.one, invariant.1.2⟩,
      fun taken member => ⟨(invariant.2 taken member).1.one, (invariant.2 taken member).2⟩⟩

/-- No run creates two processes. -/
theorem created_once (run : Run system past last) : Throughout AtMostOne past last := by
  have guarded := run.always Guarded (fun _ begins => .initial begins)
    (fun _ _ _ before taken => before.step taken)
  exact ⟨guarded.1.one, fun taken member => (guarded.2 taken member).one⟩

def newManager : EnsureClamd := ⟨none, none, [], true, fun _ => .uncalled, 0, false, false⟩

theorem newManager_run : Run system [] newManager :=
  .start ⟨rfl, rfl, rfl, rfl, fun _ => rfl, rfl, rfl⟩

/-- The second call comes after the `PONG`. -/
theorem started_once_sequential : ∃ past last,
    follow system [.call 0 true, .spawned 0 true true, .socket true, .look 0 true, .connected 0 false,
      .resume 0, .connected 0 true, .answered 0 true, .call 1 true] ([], newManager) =
        some (past, last) ∧
      Throughout (fun mgr => AtMostOne mgr ∧ NeverEarly mgr) past last := by
  refine ⟨_, _, rfl, ?_⟩
  exact (started_once_iff (newManager_run.follow [.call 0 true, .spawned 0 true true, .socket true,
    .look 0 true, .connected 0 false, .resume 0, .connected 0 true, .answered 0 true, .call 1 true]
    rfl)).mpr (by decide)

/-- The second call finds the handle while the first one waits for the socket, and it returns. -/
theorem early_return : ∃ past last,
    Run system past last ∧ last.phase 0 = .awaitingSocket ∧ last.phase 1 = .returned ∧
      last.pong = false ∧ ¬ NeverEarly last := by
  refine ⟨_, _, newManager_run.follow [.call 0 true, .spawned 0 true true, .call 1 true] rfl, rfl, rfl,
    rfl, ?_⟩
  intro early
  exact absurd (early 1 rfl) Bool.false_ne_true

end ClamavDbscan.EnsureClamd
