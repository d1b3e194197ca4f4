import Mathlib.Data.List.Basic

/-
This file defines runs of a labelled transition system and their induction rules.
-/

namespace Transition

variable {σ α : Type*}

/-- States number what they hold in creation order, and a new entry has the next number. -/
theorem getElem?_snoc {β : Type*} (list : List β) (entry : β) (number : Nat) :
    (list ++ [entry])[number]? = if number = list.length then some entry else list[number]? := by
  rcases Nat.lt_trichotomy number list.length with old | rfl | outside
  · rw [List.getElem?_append_left old, if_neg (Nat.ne_of_lt old)]
  · simp
  · rw [List.getElem?_eq_none (by simp; omega), List.getElem?_eq_none (Nat.le_of_lt outside),
      if_neg (Nat.ne_of_gt outside)]

/-- An entry that is replaced has its number before and after. -/
theorem getElem?_replace {β : Type*} {list : List β} {entry : β} {number : Nat}
    (stored : list[number]? = some entry) (next : β) (other : Nat) :
    (list.set number next)[other]? = if other = number then some next else list[other]? := by
  by_cases same : other = number
  · subst same
    have inside := (List.getElem?_eq_some_iff.mp stored).1
    simp [inside]
  · rw [if_neg same, List.getElem?_set_ne (Ne.symm same)]

/-- Nothing changes when an entry is replaced by itself. -/
theorem replace_same {β : Type*} {list : List β} {entry : β} {number : Nat}
    (stored : list[number]? = some entry) : list.set number entry = list := by
  obtain ⟨inside, rfl⟩ := List.getElem?_eq_some_iff.mp stored
  exact List.set_getElem_self inside

/-- An entry that is found after a replacement is the new one or was there before. -/
theorem replace_cases {β : Type*} {list : List β} {next entry : β} {number other : Nat}
    (found : (list.set number next)[other]? = some entry) :
    (other = number ∧ entry = next) ∨ (other ≠ number ∧ list[other]? = some entry) := by
  by_cases same : other = number
  · subst same
    obtain ⟨_, held⟩ := List.getElem?_eq_some_iff.mp found
    rw [List.getElem_set_self] at held
    exact .inl ⟨rfl, held.symm⟩
  · rw [List.getElem?_set_ne (Ne.symm same)] at found
    exact .inr ⟨same, found⟩

/-- What holds of an entry holds of its place after a replacement that respects it. -/
theorem exists_replace {β : Type*} {list : List β} {next entry : β} {number other : Nat}
    {good : β → Prop} (present : list[other]? = some entry) (kept : good entry)
    (moved : other = number → good next) :
    ∃ later, (list.set number next)[other]? = some later ∧ good later := by
  by_cases same : other = number
  · subst same
    exact ⟨next, (getElem?_replace present next other).trans (if_pos rfl), moved rfl⟩
  · rw [List.getElem?_set_ne (Ne.symm same)]
    exact ⟨entry, present, kept⟩

/-- A system has start states and at most one next state for each label. -/
structure System (σ α : Type*) where
  start : σ → Prop
  step : σ → α → Option σ

/-- A run lists each label with the state that took it, newest first. -/
inductive Run (system : System σ α) : List (σ × α) → σ → Prop
  | start {state : σ} : system.start state → Run system [] state
  | next {past : List (σ × α)} {state after : σ} {label : α} :
      Run system past state → system.step state label = some after →
      Run system ((state, label) :: past) after

/-- The last step of a run follows the run before it. -/
theorem Run.uncons {system : System σ α} {past : List (σ × α)} {state last : σ} {label : α}
    (run : Run system ((state, label) :: past) last) :
    Run system past state ∧ system.step state label = some last := by
  cases run with
  | next earlier taken => exact ⟨earlier, taken⟩

/-- Each step of a run follows the run before it. -/
theorem Run.split {system : System σ α} {later past : List (σ × α)} {state last : σ} {label : α}
    (run : Run system (later ++ (state, label) :: past) last) :
    ∃ after, Run system past state ∧ system.step state label = some after := by
  induction later generalizing last with
  | nil => exact ⟨last, run.uncons⟩
  | cons taken later ih => exact ih run.uncons.1

/-- Every step of the run meets the condition in the state that took it. -/
def Meets (condition : σ → α → Prop) (past : List (σ × α)) : Prop :=
  ∀ taken ∈ past, condition taken.1 taken.2

/-- The property holds in every state of the run. -/
def Throughout (property : σ → Prop) (past : List (σ × α)) (last : σ) : Prop :=
  property last ∧ ∀ taken ∈ past, property taken.1

instance (condition : σ → α → Prop) [∀ state label, Decidable (condition state label)]
    (past : List (σ × α)) : Decidable (Meets condition past) :=
  inferInstanceAs (Decidable (∀ taken ∈ past, _))

@[simp] theorem meets_nil (condition : σ → α → Prop) :
    Meets condition ([] : List (σ × α)) := by
  simp [Meets]

@[simp] theorem meets_cons (condition : σ → α → Prop) (taken : σ × α) (past : List (σ × α)) :
    Meets condition (taken :: past) ↔ condition taken.1 taken.2 ∧ Meets condition past := by
  simp [Meets]

theorem throughout_cons (property : σ → Prop) (state last : σ) (label : α) (past : List (σ × α)) :
    Throughout property ((state, label) :: past) last ↔
      property last ∧ Throughout property past state := by
  simp [Throughout]

theorem Meets.and {first second : σ → α → Prop} {past : List (σ × α)}
    (left : Meets first past) (right : Meets second past) :
    Meets (fun state label => first state label ∧ second state label) past :=
  fun taken member => ⟨left taken member, right taken member⟩

/-- An invariant of the conforming steps holds in every state of a conforming run. -/
theorem Run.throughout {system : System σ α} (condition : σ → α → Prop) (invariant : σ → Prop)
    (initial : ∀ state, system.start state → invariant state)
    (preserved : ∀ state label after, invariant state → condition state label →
      system.step state label = some after → invariant after)
    {past : List (σ × α)} {last : σ} (run : Run system past last) (met : Meets condition past) :
    Throughout invariant past last := by
  induction run with
  | start begins => exact ⟨initial _ begins, by simp⟩
  | next earlier taken ih =>
      rw [meets_cons] at met
      have before := ih met.2
      rw [throughout_cons]
      exact ⟨preserved _ _ _ before.1 met.1 taken, before⟩

/-- An invariant of every step holds in every state of every run. -/
theorem Run.always {system : System σ α} (invariant : σ → Prop)
    (initial : ∀ state, system.start state → invariant state)
    (preserved : ∀ state label after, invariant state →
      system.step state label = some after → invariant after)
    {past : List (σ × α)} {last : σ} (run : Run system past last) :
    Throughout invariant past last :=
  run.throughout (fun _ _ => True) invariant initial
    (fun state label after before _ => preserved state label after before) (fun _ _ => trivial)

/-- These observations of the steps come oldest first. -/
def observed {β : Type*} (observe : σ × α → Option β) (past : List (σ × α)) : List β :=
  (past.filterMap observe).reverse

@[simp] theorem observed_cons {β : Type*} (observe : σ × α → Option β) (taken : σ × α)
    (past : List (σ × α)) :
    observed observe (taken :: past) = observed observe past ++ (observe taken).toList := by
  cases seen : observe taken <;> simp [observed, seen]

theorem observed_append {β : Type*} (observe : σ × α → Option β) (later past : List (σ × α)) :
    observed observe (later ++ past) = observed observe past ++ observed observe later := by
  simp [observed]

/-- What is observed at one place splits the steps there. -/
theorem observed_split {β : Type*} {observe : σ × α → Option β} {past : List (σ × α)} {front back : List β}
    {seen : β} (split : observed observe past = front ++ seen :: back) :
    ∃ later taken earlier, past = later ++ taken :: earlier ∧ observe taken = some seen ∧
      observed observe earlier = front ∧ observed observe later = back := by
  have places := congrArg List.reverse split
  rw [observed, List.reverse_reverse, List.reverse_append, List.reverse_cons, List.append_assoc,
    List.singleton_append] at places
  obtain ⟨later, rest, rfl, backward, others⟩ := List.filterMap_eq_append_iff.mp places
  obtain ⟨quiet, taken, earlier, rfl, silent, sees, forward⟩ := List.filterMap_eq_cons_iff.mp others
  refine ⟨later ++ quiet, taken, earlier, by rw [List.append_assoc], sees, ?_, ?_⟩
  · rw [observed, forward, List.reverse_reverse]
  · rw [observed, List.filterMap_append, backward, List.filterMap_eq_nil_iff.mpr silent, List.append_nil,
      List.reverse_reverse]

/-- Each step of a run leads to a state of the run. -/
theorem Run.after_step {system : System σ α} {property : σ → Prop}
    {past : List (σ × α)} {last : σ} (run : Run system past last)
    (holds : Throughout property past last) :
    ∀ taken ∈ past, ∃ after, system.step taken.1 taken.2 = some after ∧ property after := by
  induction run with
  | start => simp
  | @next past state after label earlier moved ih =>
      rw [throughout_cons] at holds
      intro taken member
      rcases List.mem_cons.mp member with rfl | member
      · exact ⟨after, moved, holds.1⟩
      · exact ih holds.2 taken member

/-- The labels extend a run if every one of them is enabled in its turn. -/
def follow (system : System σ α) :
    List α → List (σ × α) × σ → Option (List (σ × α) × σ)
  | [], reached => some reached
  | label :: others, (past, state) =>
      (system.step state label).bind fun after => follow system others ((state, label) :: past, after)

theorem Run.follow {system : System σ α} {past longer : List (σ × α)} {state last : σ}
    (run : Run system past state) (labels : List α)
    (followed : Transition.follow system labels (past, state) = some (longer, last)) :
    Run system longer last := by
  induction labels generalizing past state with
  | nil =>
      obtain ⟨rfl, rfl⟩ := Prod.mk.inj (Option.some.inj followed)
      exact run
  | cons label others ih =>
      obtain ⟨after, taken, rest⟩ := Option.bind_eq_some_iff.mp followed
      exact ih (run.next taken) rest

/-- Nothing can happen in a stuck state. -/
def Stuck (system : System σ α) (state : σ) : Prop :=
  ∀ label, system.step state label = none

/-- A measure that every step lowers bounds the length of a run. -/
theorem Run.length_le {system : System σ α} (invariant : σ → Prop) (measure : σ → Nat) (bound : Nat)
    (initial : ∀ state, system.start state → invariant state ∧ measure state ≤ bound)
    (preserved : ∀ state label after, invariant state → system.step state label = some after →
      invariant after ∧ measure after < measure state)
    {past : List (σ × α)} {last : σ} (run : Run system past last) :
    past.length + measure last ≤ bound := by
  have holds := run.always invariant (fun state begins => (initial state begins).1)
    (fun state label after before taken => (preserved state label after before taken).1)
  induction run with
  | start begins => simpa using (initial _ begins).2
  | @next past state after label earlier taken ih =>
      rw [throughout_cons] at holds
      have lowered := (preserved _ _ _ holds.2.1 taken).2
      have shorter := ih holds.2
      simp only [List.length_cons]
      omega

end Transition
