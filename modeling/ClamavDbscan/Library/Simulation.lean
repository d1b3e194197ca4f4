import ClamavDbscan.Library.Transition

/-
This file defines simulations between labelled transition systems and the runs that they carry over.
-/

namespace Transition

variable {σ τ α β : Type*}

/-- The labels take one step each, in their order. -/
def steps (system : System σ α) (labels : List α) (state : σ) : Option σ :=
  labels.foldlM system.step state

@[simp] theorem steps_nil (system : System σ α) (state : σ) : steps system [] state = some state := rfl

@[simp] theorem steps_cons (system : System σ α) (label : α) (others : List α) (state : σ) :
    steps system (label :: others) state = (system.step state label).bind (steps system others) := rfl

theorem steps_single (system : System σ α) (label : α) (state : σ) :
    steps system [label] state = system.step state label := by
  rw [steps_cons]
  cases system.step state label <;> rfl

/-- Labels that follow a run make a longer run, which lists them before the labels of the run. -/
theorem Run.steps {system : System σ α} {past : List (σ × α)} {state last : σ} (run : Run system past state)
    {labels : List α} (taken : Transition.steps system labels state = some last) :
    ∃ later, Run system (later ++ past) last ∧ later.map Prod.snd = labels.reverse := by
  induction labels generalizing past state with
  | nil =>
      obtain rfl := Option.some.inj taken
      exact ⟨[], run, rfl⟩
  | cons label others ih =>
      rw [steps_cons] at taken
      obtain ⟨after, moved, rest⟩ := Option.bind_eq_some_iff.mp taken
      obtain ⟨later, longer, shown⟩ := ih (run.next moved) rest
      refine ⟨later ++ [(state, label)], ?_, ?_⟩
      · rwa [List.append_assoc, List.singleton_append]
      · rw [List.map_append, shown, List.reverse_cons]
        rfl

/-- The steps before a state stay in front of those that follow it. -/
theorem follow_prior {system : System σ α} {labels : List α} (prior : List (σ × α)) {later past : List (σ × α)}
    {state last : σ} (followed : follow system labels (later, state) = some (past, last)) :
    follow system labels (later ++ prior, state) = some (past ++ prior, last) := by
  induction labels generalizing later state with
  | nil =>
      obtain ⟨rfl, rfl⟩ := Prod.mk.inj (Option.some.inj followed)
      rfl
  | cons label others ih =>
      obtain ⟨after, taken, rest⟩ := Option.bind_eq_some_iff.mp followed
      rw [follow, taken]
      exact ih rest

/-- A step of the large system from related states is answered by labels of the small one. -/
structure Simulates (large : System σ α) (small : System τ β) (condition : σ → α → Prop)
    (answer : σ → α → List β) (related : σ → τ → Prop) : Prop where
  start : ∀ state, large.start state → ∃ mirror, small.start mirror ∧ related state mirror
  step : ∀ state label after mirror, related state mirror → condition state label →
    large.step state label = some after →
      ∃ later, steps small (answer state label) mirror = some later ∧ related after later

/-- These are the answers to the steps of a run, oldest first. -/
def answers (answer : σ → α → List β) (past : List (σ × α)) : List β :=
  past.reverse.flatMap fun taken => answer taken.1 taken.2

@[simp] theorem answers_nil (answer : σ → α → List β) :
    answers answer ([] : List (σ × α)) = [] := rfl

@[simp] theorem answers_cons (answer : σ → α → List β) (taken : σ × α) (past : List (σ × α)) :
    answers answer (taken :: past) = answers answer past ++ answer taken.1 taken.2 := by
  simp [answers]

@[simp] theorem answers_append (answer : σ → α → List β) (later past : List (σ × α)) :
    answers answer (later ++ past) = answers answer past ++ answers answer later := by
  simp [answers]

namespace Simulates

variable {large : System σ α} {small : System τ β} {condition : σ → α → Prop}
  {answer : σ → α → List β} {related : σ → τ → Prop}

/-- A conforming run of the large system is a run of the small one to a related state. -/
theorem run (simulates : Simulates large small condition answer related) {past : List (σ × α)}
    {last : σ} (taken : Run large past last) (met : Meets condition past) :
    ∃ trace mirror, Run small trace mirror ∧ related last mirror ∧
      trace.map Prod.snd = (answers answer past).reverse := by
  induction taken with
  | start begins =>
      obtain ⟨mirror, small, same⟩ := simulates.start _ begins
      exact ⟨[], mirror, .start small, same, rfl⟩
  | @next past state after label earlier moved ih =>
      rw [meets_cons] at met
      obtain ⟨trace, mirror, small, same, shown⟩ := ih met.2
      obtain ⟨later, answered, kept⟩ := simulates.step _ _ _ _ same met.1 moved
      obtain ⟨newer, longer, labels⟩ := small.steps answered
      refine ⟨newer ++ trace, later, longer, kept, ?_⟩
      rw [List.map_append, labels, shown, answers_cons, List.reverse_append]

/-- Where every step is answered by at most one label, the steps of the small run mirror the answered
steps of the large one. -/
theorem run_mirrored (simulates : Simulates large small condition answer related)
    (single : ∀ state label, (answer state label).length ≤ 1) {past : List (σ × α)} {last : σ}
    (taken : Run large past last) (met : Meets condition past) :
    ∃ trace mirror, Run small trace mirror ∧ related last mirror ∧
      List.Forall₂ (fun origin step => related origin.1 step.1 ∧ answer origin.1 origin.2 = [step.2])
        (past.filter fun origin => !(answer origin.1 origin.2).isEmpty) trace := by
  induction taken with
  | start begins =>
      obtain ⟨mirror, small, same⟩ := simulates.start _ begins
      exact ⟨[], mirror, .start small, same, .nil⟩
  | @next past state after label earlier moved ih =>
      rw [meets_cons] at met
      obtain ⟨trace, mirror, small, same, origins⟩ := ih met.2
      obtain ⟨later, answered, kept⟩ := simulates.step _ _ _ _ same met.1 moved
      match labels : answer state label, single state label with
      | [], _ =>
          rw [labels, steps_nil, Option.some.injEq] at answered
          subst answered
          refine ⟨trace, mirror, small, kept, ?_⟩
          rwa [List.filter_cons_of_neg (by simp [labels])]
      | [reply], _ =>
          rw [labels, steps_single] at answered
          refine ⟨(mirror, reply) :: trace, later, small.next answered, kept, ?_⟩
          rw [List.filter_cons_of_pos (by simp [labels])]
          exact .cons ⟨same, labels⟩ origins

end Simulates

section Mirrored

variable {β γ : Type*} {mirrors : σ → β → Prop} {kept : σ → Bool} {past : List σ} {trace : List β}

/-- A mirrored step has an origin. -/
theorem origin_of_mem (mirrored : List.Forall₂ mirrors past trace) {step : β} (member : step ∈ trace) :
    ∃ origin ∈ past, mirrors origin step := by
  induction mirrored with
  | nil => contradiction
  | @cons origin first _ _ mirrors _ ih =>
      rcases List.mem_cons.mp member with rfl | later
      · exact ⟨origin, List.mem_cons_self, mirrors⟩
      · obtain ⟨earlier, inside, same⟩ := ih later
        exact ⟨earlier, List.mem_cons_of_mem _ inside, same⟩

/-- Observations that agree on the mirrored steps and are silent on the others are the same. -/
theorem filterMap_mirrored (mirrored : List.Forall₂ mirrors (past.filter kept) trace)
    {observe : σ → Option γ} {seen : β → Option γ}
    (same : ∀ origin ∈ past, ∀ step, mirrors origin step → seen step = observe origin)
    (silent : ∀ origin ∈ past, kept origin = false → observe origin = none) :
    trace.filterMap seen = past.filterMap observe := by
  induction past generalizing trace with
  | nil =>
      cases mirrored
      rfl
  | cons origin past ih =>
      have sameLater := fun other member => same other (List.mem_cons_of_mem origin member)
      have silentLater := fun other member => silent other (List.mem_cons_of_mem origin member)
      cases keeps : kept origin with
      | false =>
          rw [List.filter_cons_of_neg (by simp [keeps])] at mirrored
          rw [List.filterMap_cons_none (silent origin List.mem_cons_self keeps)]
          exact ih mirrored sameLater silentLater
      | true =>
          rw [List.filter_cons_of_pos keeps] at mirrored
          cases mirrored with
          | @cons _ step _ rest first others =>
              rw [List.filterMap_cons, List.filterMap_cons, same origin List.mem_cons_self step first,
                ih others sameLater silentLater]

end Mirrored

section View

variable {large : System σ α} {small : System τ β} (view : σ → τ) (label : σ → α → Option β)

/-- These are the steps of a run that a view of it sees. -/
def viewed (past : List (σ × α)) : List (τ × β) :=
  past.filterMap fun taken => (label taken.1 taken.2).map fun seen => (view taken.1, seen)

theorem viewed_append (later past : List (σ × α)) :
    viewed view label (later ++ past) = viewed view label later ++ viewed view label past :=
  List.filterMap_append

theorem viewed_cons_some {state : σ} {taken : α} {seen : β} (past : List (σ × α))
    (sees : label state taken = some seen) :
    viewed view label ((state, taken) :: past) = (view state, seen) :: viewed view label past := by
  simp [viewed, sees]

/-- What is observed in the view is observed in the run. -/
theorem observed_viewed {γ : Type*} (observe : τ × β → Option γ) (past : List (σ × α)) :
    observed observe (viewed view label past) =
      observed (fun taken => (label taken.1 taken.2).bind fun seen => observe (view taken.1, seen)) past := by
  simp only [observed, viewed, List.filterMap_filterMap, Option.bind_map]
  rfl

/-- A view whose steps are steps of the small system, or leave it unchanged, carries runs over. -/
theorem Run.viewed (start : ∀ state, large.start state → small.start (view state))
    (step : ∀ state taken after, large.step state taken = some after →
      match label state taken with
      | none => view after = view state
      | some seen => small.step (view state) seen = some (view after))
    {past : List (σ × α)} {last : σ} (run : Run large past last) :
    Run small (Transition.viewed view label past) (view last) := by
  induction run with
  | start begins => exact .start (start _ begins)
  | @next past state after taken earlier moved ih =>
      have same := step state taken after moved
      cases sees : label state taken with
      | none =>
          rw [sees] at same
          rw [show view after = view state from same]
          simpa [Transition.viewed, sees] using ih
      | some seen =>
          rw [sees] at same
          rw [viewed_cons_some view label past sees]
          exact ih.next same

end View

end Transition
