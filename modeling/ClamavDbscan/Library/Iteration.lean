import Mathlib.Data.Nat.Find
import Mathlib.Logic.Relation

/-
This file defines loops that may run forever and the rules for their results.
-/

namespace Iteration

variable {σ ρ : Type*}

/-- One turn of a loop goes on in a new state or stops with a result. -/
inductive Turn (σ ρ : Type*) where
  | next (state : σ)
  | stop (result : ρ)
  deriving DecidableEq

/-- A bounded number of turns gives the result when the loop stops within them. -/
def iterate (turn : σ → Turn σ ρ) : Nat → σ → Option ρ
  | 0, _ => none
  | fuel + 1, state =>
      match turn state with
      | .next after => iterate turn fuel after
      | .stop result => some result

/-- The loop stops with this result after some number of turns. -/
def Gives (turn : σ → Turn σ ρ) (state : σ) (result : ρ) : Prop :=
  ∃ fuel, iterate turn fuel state = some result

/-- The loop stops. -/
def Halts (turn : σ → Turn σ ρ) (state : σ) : Prop :=
  ∃ result, Gives turn state result

/-- The loop passes from one state to another in some number of turns. -/
def Passes (turn : σ → Turn σ ρ) : σ → σ → Prop :=
  Relation.ReflTransGen fun state after => turn state = .next after

theorem iterate_succ_of_some {turn : σ → Turn σ ρ} {fuel : Nat} {state : σ} {result : ρ}
    (found : iterate turn fuel state = some result) :
    iterate turn (fuel + 1) state = some result := by
  induction fuel generalizing state with
  | zero => simp [iterate] at found
  | succ fuel ih =>
      rw [iterate] at found ⊢
      cases turned : turn state with
      | next after =>
          simp only [turned] at found ⊢
          exact ih found
      | stop final => simpa only [turned] using found

/-- More fuel keeps the result. -/
theorem iterate_mono {turn : σ → Turn σ ρ} {fuel more : Nat} {state : σ} {result : ρ}
    (enough : fuel ≤ more) (found : iterate turn fuel state = some result) :
    iterate turn more state = some result := by
  induction more, enough using Nat.le_induction with
  | base => exact found
  | succ more _ ih => exact iterate_succ_of_some ih

/-- A loop has at most one result. -/
theorem Gives.unique {turn : σ → Turn σ ρ} {state : σ} {first second : ρ}
    (left : Gives turn state first) (right : Gives turn state second) : first = second := by
  obtain ⟨fuel, left⟩ := left
  obtain ⟨more, right⟩ := right
  have same := (iterate_mono (Nat.le_max_left fuel more) left).symm.trans
    (iterate_mono (Nat.le_max_right fuel more) right)
  exact Option.some.inj same

/-- One result of a loop decides which results it has. -/
theorem Gives.iff_eq {turn : σ → Turn σ ρ} {state : σ} {first second : ρ}
    (found : Gives turn state first) : Gives turn state second ↔ second = first :=
  ⟨fun other => other.unique found, fun same => same ▸ found⟩

theorem gives_of_stop {turn : σ → Turn σ ρ} {state : σ} {result : ρ}
    (stopped : turn state = .stop result) : Gives turn state result :=
  ⟨1, by simp [iterate, stopped]⟩

/-- One turn does not change the result. -/
theorem gives_next_iff {turn : σ → Turn σ ρ} {state after : σ} {result : ρ}
    (turned : turn state = .next after) : Gives turn state result ↔ Gives turn after result := by
  constructor
  · rintro ⟨fuel, found⟩
    cases fuel with
    | zero => simp [iterate] at found
    | succ fuel => exact ⟨fuel, by simpa only [iterate, turned] using found⟩
  · rintro ⟨fuel, found⟩
    exact ⟨fuel + 1, by simpa only [iterate, turned] using found⟩

/-- The result of a loop is the result from any state it passes. -/
theorem Passes.gives_iff {turn : σ → Turn σ ρ} {state after : σ} {result : ρ}
    (passed : Passes turn state after) : Gives turn state result ↔ Gives turn after result := by
  induction passed with
  | refl => rfl
  | tail _ turned ih => exact ih.trans (gives_next_iff turned)

theorem Passes.halts_iff {turn : σ → Turn σ ρ} {state after : σ}
    (passed : Passes turn state after) : Halts turn state ↔ Halts turn after :=
  exists_congr fun _ => passed.gives_iff

theorem Passes.refl (turn : σ → Turn σ ρ) (state : σ) : Passes turn state state :=
  Relation.ReflTransGen.refl

theorem Passes.trans {turn : σ → Turn σ ρ} {state middle after : σ}
    (first : Passes turn state middle) (second : Passes turn middle after) :
    Passes turn state after :=
  Relation.ReflTransGen.trans first second

theorem Passes.step {turn : σ → Turn σ ρ} {state after : σ}
    (turned : turn state = .next after) : Passes turn state after :=
  Relation.ReflTransGen.single turned

/-- The loop passes from one state to another and leaves only good states behind. -/
def PassesThrough (turn : σ → Turn σ ρ) (good : σ → Prop) : σ → σ → Prop :=
  Relation.ReflTransGen fun state after => good state ∧ turn state = .next after

theorem PassesThrough.refl (turn : σ → Turn σ ρ) (good : σ → Prop) (state : σ) :
    PassesThrough turn good state state :=
  Relation.ReflTransGen.refl

theorem PassesThrough.trans {turn : σ → Turn σ ρ} {good : σ → Prop} {state middle after : σ}
    (first : PassesThrough turn good state middle) (second : PassesThrough turn good middle after) :
    PassesThrough turn good state after :=
  Relation.ReflTransGen.trans first second

theorem PassesThrough.step {turn : σ → Turn σ ρ} {good : σ → Prop} {state after : σ}
    (holds : good state) (turned : turn state = .next after) : PassesThrough turn good state after :=
  Relation.ReflTransGen.single ⟨holds, turned⟩

theorem PassesThrough.passes {turn : σ → Turn σ ρ} {good : σ → Prop} {state after : σ}
    (through : PassesThrough turn good state after) : Passes turn state after :=
  Relation.ReflTransGen.mono (fun _ _ step => step.2) _ _ through

theorem PassesThrough.mono {turn : σ → Turn σ ρ} {good better : σ → Prop} {state after : σ}
    (improves : ∀ state, good state → better state) (through : PassesThrough turn good state after) :
    PassesThrough turn better state after :=
  Relation.ReflTransGen.mono (fun _ _ step => ⟨improves _ step.1, step.2⟩) _ _ through

/-- A loop that leaves good states behind and stops in one reaches no other state. -/
theorem PassesThrough.good_of_passes {turn : σ → Turn σ ρ} {good : σ → Prop} {state last other : σ}
    {result : ρ} (through : PassesThrough turn good state last) (ends : good last)
    (stopped : turn last = .stop result) (passed : Passes turn state other) : good other := by
  induction through using Relation.ReflTransGen.head_induction_on with
  | refl =>
      rcases Relation.ReflTransGen.cases_head passed with rfl | ⟨after, turned, _⟩
      · exact ends
      · cases stopped.symm.trans turned
  | head step _ ih =>
      obtain ⟨holds, turned⟩ := step
      rcases Relation.ReflTransGen.cases_head passed with rfl | ⟨after, again, rest⟩
      · exact holds
      · obtain rfl := Turn.next.inj (turned.symm.trans again)
        exact ih rest

/-- A loop that moves along with another one reaches states related to those of the other. -/
theorem Passes.simulate {τ υ : Type*} {turn : σ → Turn σ ρ} {other : τ → Turn τ υ}
    (related : σ → τ → Prop)
    (follows : ∀ state mirror after, related state mirror → turn state = .next after →
      ∃ later, Passes other mirror later ∧ related after later)
    {state after : σ} {mirror : τ} (begins : related state mirror) (passed : Passes turn state after) :
    ∃ later, Passes other mirror later ∧ related after later := by
  induction passed with
  | refl => exact ⟨mirror, Passes.refl other mirror, begins⟩
  | tail _ turned ih =>
      obtain ⟨middle, reached, same⟩ := ih
      obtain ⟨later, moved, kept⟩ := follows _ middle _ same turned
      exact ⟨later, reached.trans moved, kept⟩

/-- A loop gives a good result when every turn that goes on keeps an invariant and lowers a measure. -/
theorem gives_of_measure {turn : σ → Turn σ ρ} (invariant : σ → Prop) (measure : σ → Nat)
    (good : ρ → Prop)
    (lowered : ∀ state after, invariant state → turn state = .next after →
      invariant after ∧ measure after < measure state)
    (ends : ∀ state result, invariant state → turn state = .stop result → good result)
    {state : σ} (holds : invariant state) : ∃ result, Gives turn state result ∧ good result := by
  induction size : measure state using Nat.strong_induction_on generalizing state with
  | _ size ih =>
      cases turned : turn state with
      | next after =>
          obtain ⟨kept, less⟩ := lowered state after holds turned
          obtain ⟨result, found, fine⟩ := ih _ (size ▸ less) kept rfl
          exact ⟨result, (gives_next_iff turned).mpr found, fine⟩
      | stop result => exact ⟨result, gives_of_stop turned, ends state result holds turned⟩

/-- A loop stops when every turn that goes on keeps an invariant and lowers a measure. -/
theorem halts_of_measure {turn : σ → Turn σ ρ} (invariant : σ → Prop) (measure : σ → Nat)
    (lowered : ∀ state after, invariant state → turn state = .next after →
      invariant after ∧ measure after < measure state)
    {state : σ} (holds : invariant state) : Halts turn state := by
  obtain ⟨result, found, _⟩ := gives_of_measure invariant measure (fun _ => True) lowered
    (fun _ _ _ _ => trivial) holds
  exact ⟨result, found⟩

/-- A loop whose turns always go on inside an invariant never stops. -/
theorem not_halts_of_invariant {turn : σ → Turn σ ρ} (invariant : σ → Prop)
    (goesOn : ∀ state, invariant state → ∃ after, turn state = .next after ∧ invariant after)
    {state : σ} (holds : invariant state) : ¬ Halts turn state := by
  rintro ⟨result, fuel, found⟩
  induction fuel generalizing state with
  | zero => simp [iterate] at found
  | succ fuel ih =>
      obtain ⟨after, turned, kept⟩ := goesOn state holds
      simp only [iterate, turned] at found
      exact ih kept found

end Iteration
