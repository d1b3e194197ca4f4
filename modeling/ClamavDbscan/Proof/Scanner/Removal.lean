import ClamavDbscan.Proof.Scanner.CacheSoundness

/-
This file proves when a removal is not undone by a scan in flight.
-/

namespace ClamavDbscan.Session

variable {κ : Type}

/-- A path that is removed has no row. -/
def RemovalKept (session : Session κ) : Prop :=
  ∀ path, session.removed path = true → session.watch.files path = none

/-- A removal is handled while no call of its path is in flight. -/
def RemovesIdle (session : Session κ) : Label κ → Prop
  | .watch label => ∀ path ∈ handledRemoval session.watch label, ∀ call ∈ session.calls,
      call.path = path → call.inFlight = false
  | _ => True

instance (session : Session κ) : (label : Label κ) → Decidable (RemovesIdle session label)
  | .watch label => inferInstanceAs (Decidable (∀ path ∈ handledRemoval session.watch label, _))
  | .change _ _ | .begin _ _ | .advance _ _ | .read _ => isTrue trivial

/-- Under this invariant every store ends the time of a removal. -/
structure RemovalSafe (session : Session κ) : Prop where
  kept : RemovalKept session
  current : ∀ call ∈ session.calls, call.outdated = false

variable {clamd : Clamd κ} {session after : Session κ}

/-- A handled removal deletes the row, and it finds no call to mark. -/
theorem removalSafe_watch (safe : RemovalSafe session) {label : OnDemand.Label} {watch : OnDemand}
    (idle : RemovesIdle session (.watch label))
    (taken : OnDemand.step session.watch label = some watch) :
    RemovalSafe ({ session with watch := watch }.noteRemoval (handledRemoval session.watch label)) := by
  have table := watch_files taken
  cases removal : handledRemoval session.watch label with
  | none =>
      rw [removal] at table
      refine ⟨?_, safe.current⟩
      intro path removed
      change watch.files path = none
      rw [table]
      exact safe.kept path removed
  | some gone =>
      rw [removal] at table
      refine ⟨?_, ?_⟩
      · intro path removed
        change Function.update session.removed gone true path = true at removed
        change watch.files path = none
        rw [table]
        change Function.update session.watch.files gone none path = none
        by_cases same : path = gone
        · subst same
          exact Function.update_self ..
        · rw [Function.update_of_ne same] at removed ⊢
          exact safe.kept path removed
      · intro call member
        obtain ⟨before, inside, same⟩ := List.mem_map.mp member
        split at same
        · rename_i marked
          have resting := idle gone removal before inside marked.1
          rw [marked.2] at resting
          contradiction
        · exact same ▸ safe.current before inside

/-- A call writes the table only when it stores, and that store is current. -/
theorem removalSafe_advance (safe : RemovalSafe session) {number : Nat} {now : Str}
    {call next : Call κ} {files : Files} (stored : session.calls[number]? = some call)
    (advanced : Call.Advanced session.disk session.watch.files now call next files) :
    RemovalSafe { session with
      watch := { session.watch with files := files }
      calls := session.calls.set number next
      removed := noteStore session.removed call next } := by
  have current := safe.current call (List.mem_of_getElem? stored)
  have marks : next.outdated = call.outdated := by
    cases advanced <;> rfl
  refine ⟨?_, ?_⟩
  · intro path removed
    change files path = none
    cases advanced with
    | store entry reply result replied parsed =>
        obtain ⟨_, _, _, _, _, _, _, _, rfl⟩ := parseReply_ok parsed
        simp only [noteStore, replied, current] at removed
        change Function.update session.removed call.path false path = true at removed
        change Function.update session.watch.files call.path _ path = none
        by_cases same : path = call.path
        · subst same
          rw [Function.update_self] at removed
          contradiction
        · rw [Function.update_of_ne same] at removed ⊢
          exact safe.kept path removed
    | hit entry cached fresh found hit =>
        simp only [noteStore, fresh] at removed
        exact safe.kept path removed
    | raised | miss | stat | send =>
        apply safe.kept path
        cases phase : call.phase <;> simpa [noteStore, phase] using removed
  · intro other member
    cases List.mem_or_eq_of_mem_set member with
    | inl old => exact safe.current other old
    | inr new => exact new ▸ marks.trans current

theorem removalSafe_step (safe : RemovalSafe session) {label : Label κ}
    (idle : RemovesIdle session label) (stepped : step clamd session label = some after) :
    RemovalSafe after := by
  cases step_taken stepped with
  | watch label watch taken => exact removalSafe_watch safe idle taken
  | change path entry => exact ⟨safe.kept, safe.current⟩
  | begin path cacheOk idle =>
      refine ⟨safe.kept, ?_⟩
      intro call member
      cases List.mem_append.mp member with
      | inl old => exact safe.current call old
      | inr new => rw [List.mem_singleton.mp new]
  | advance number now call next files idle stored advanced =>
      exact removalSafe_advance safe stored advanced
  | read number call entry stored sent =>
      refine ⟨safe.kept, ?_⟩
      intro other member
      cases List.mem_or_eq_of_mem_set member with
      | inl old => exact safe.current other old
      | inr new => exact new ▸ safe.current call (List.mem_of_getElem? stored)

/-- A run whose removals find no call in flight keeps every removal. -/
theorem removal_kept (clamd : Clamd κ) {past : List (Session κ × Label κ)} {last : Session κ}
    (run : Transition.Run (system clamd) past last) (idle : Transition.Meets RemovesIdle past) :
    Transition.Throughout RemovalKept past last := by
  have safe := run.throughout RemovesIdle RemovalSafe
    (fun session begins => ⟨by simp [RemovalKept, begins.2.2.2], by simp [begins.2.2.1]⟩)
    (fun _ _ _ safe allowed stepped => removalSafe_step safe allowed stepped) idle
  exact ⟨safe.1.kept, fun taken member => (safe.2 taken member).kept⟩

/-- A finished scan does not undo a removal. -/
theorem removal_kept_finished : ∃ past last, Transition.Run (system exampleClamd) past last ∧
    last.removed (text "/a") = true ∧ Transition.Throughout RemovalKept past last := by
  have begins : Transition.Run (system exampleClamd) [] (atStart (singleFile infected)) :=
    .start ⟨⟨rfl, rfl, rfl, rfl, rfl, rfl⟩, rfl, rfl, rfl⟩
  have run := begins.follow [.begin (text "/a") true, .advance 0 [], .advance 0 [], .advance 0 [],
    .read 0, .advance 0 [], .watch (.receive [⟨text "/a", .remove⟩]), .watch .handle] rfl
  exact ⟨_, _, run, by decide +kernel, removal_kept exampleClamd run (by decide +kernel)⟩

/-- A scan that waits for its reply stores a row after the removal. -/
theorem removal_undone : ¬ ∀ (clamd : Clamd Bool) (past : List (Session Bool × Label Bool))
    (last : Session Bool), Transition.Run (system clamd) past last →
      Transition.Throughout RemovalKept past last := by
  intro always
  have begins : Transition.Run (system exampleClamd) [] (atStart (singleFile infected)) :=
    .start ⟨⟨rfl, rfl, rfl, rfl, rfl, rfl⟩, rfl, rfl, rfl⟩
  have run := begins.follow [.begin (text "/a") true, .advance 0 [], .advance 0 [], .advance 0 [],
    .read 0, .watch (.receive [⟨text "/a", .remove⟩]), .watch .handle, .advance 0 []] rfl
  have kept := (always exampleClamd _ _ run).1 (text "/a") (by decide +kernel)
  exact absurd kept (by decide +kernel)

end ClamavDbscan.Session
