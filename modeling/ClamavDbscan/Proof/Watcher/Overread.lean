import ClamavDbscan.Proof.Watcher.Decode

/-
This file decides when the event parser of the C watcher stays inside its buffer.
-/

namespace ClamavDbscan.Watcher

open Fanotify Iteration

variable {kernel : Kernel} {comparePath memory : Bytes} {stack : Stack} {outer : Outer}
  {events : List KernelEvent} {region : Loads.Region}

/-- The test that ends the loop copies the metadata behind the last event. -/
theorem regions_end (few : outer.buflen < eventMetadataLen) :
    (turnLoads kernel comparePath memory.length (.event outer)).regions memory =
      [⟨outer.metadataItor, eventMetadataLen⟩] := by
  have refused : ∀ metadata, fanEventOk metadata outer.buflen = false := by
    intro metadata
    simp only [fanEventOk, decide_eq_false (Int.not_le.mpr few), Bool.false_and]
  rw [turnLoads, Loads.regions_bind, regions_loadMetadata, run_loadMetadata]
  cases readMetadata memory outer.metadataItor with
  | none => rfl
  | some metadata =>
      simp only [refused, Option.map_some, Option.getD_some, Bool.false_eq_true, if_false]
      rfl

/-- The accesses to the events stay among them, and the last one lies behind them. -/
theorem accesses_events (kernel : Kernel) (comparePath : Bytes) (stack : Stack)
    (fits : (encodeEvents events).length ≤ bufferSize) :
    Accesses kernel comparePath stack (some (encodeEvents events))
        ⟨(encodeEvents events).length, eventMetadataLen⟩ ∧
      ∀ region, Accesses kernel comparePath stack (some (encodeEvents events)) region →
        region.Within 0 (encodeEvents events).length ∨
          region = ⟨(encodeEvents events).length, eventMetadataLen⟩ := by
  let memory := fill stack (some (encodeEvents events))
  let start : Outer := ⟨0, buflen (some (encodeEvents events)), [], 0⟩
  let last := events.foldl (Outer.behind kernel comparePath) start
  have size : (encodeEvents events).length + eventMetadataLen ≤ memory.length := by
    have behind := stack.behind
    simp only [memory, fill, List.length_append, List.length_drop]
    omega
  have holds : Bytes.Holds memory 0 (encodeEvents events) := ⟨[], _, rfl, rfl⟩
  have through : PassesThrough (turn kernel comparePath memory)
      (LoadsBelow kernel comparePath memory (encodeEvents events).length) (.event start) (.event last) :=
    through_events holds (Int.le_refl _) (Nat.le_of_eq (Nat.zero_add _))
      ((Nat.le_add_right _ _).trans size)
  have ends : last = ⟨0 + (encodeEvents events).length,
      (encodeEvents events).length - (encodeEvents events).length,
      [] ++ processEvents kernel comparePath 0 events, 0 + events.length⟩ :=
    foldl_behind start events
  have itor : last.metadataItor = (encodeEvents events).length := by
    rw [ends]
    exact Nat.zero_add _
  have few : last.buflen < eventMetadataLen := by
    rw [ends, sub_self]
    exact Int.natCast_pos.mpr (by decide)
  have copy : (turnLoads kernel comparePath memory.length (.event last)).regions memory =
      [⟨(encodeEvents events).length, eventMetadataLen⟩] := by
    rw [regions_end few, itor]
  refine ⟨⟨.event last, through.passes, ?_⟩, ?_⟩
  · change _ ∈ (turnLoads kernel comparePath memory.length (.event last)).regions memory
    rw [copy]
    exact List.mem_singleton_self _
  · intro region access
    obtain ⟨config, passed, member⟩ := access
    let good (config : Config) : Prop :=
      ∀ region ∈ (turnLoads kernel comparePath memory.length config).regions memory,
        region.Within 0 (encodeEvents events).length ∨
          region = ⟨(encodeEvents events).length, eventMetadataLen⟩
    have weaker : PassesThrough (turn kernel comparePath memory) good (.event start) (.event last) :=
      through.mono fun _ below region member => .inl (below region member)
    have final : good (.event last) := by
      intro region member
      rw [copy, List.mem_singleton] at member
      exact .inr member
    exact weaker.good_of_passes final (turn_end (itor ▸ size) few) passed region member

/-- After a failed read the first test copies the metadata at the front of the buffer. -/
theorem accesses_failed (access : Accesses kernel comparePath stack none region) :
    region = ⟨0, eventMetadataLen⟩ := by
  obtain ⟨config, passed, member⟩ := access
  have few : (⟨0, buflen none, [], 0⟩ : Outer).buflen < eventMetadataLen := by decide
  have behind := stack.behind
  have stopped : turn kernel comparePath (fill stack none) (.event ⟨0, buflen none, [], 0⟩) = _ :=
    turn_end (by change 0 + eventMetadataLen ≤ stack.bytes.length; omega) few
  rcases Relation.ReflTransGen.cases_head passed with rfl | ⟨_, turned, _⟩
  · rw [regions_end few, List.mem_singleton] at member
    exact member
  · cases stopped.symm.trans turned

/-- The parser stays inside of what was read only if nothing was read, and inside of its buffer if
the buffer has room for the metadata of one more event. -/
theorem onFsEvent_inside_iff (kernel : Kernel) (comparePath : Bytes) (stack : Stack)
    {data : Option (List KernelEvent)}
    (fits : ∀ events ∈ data, (encodeEvents events).length ≤ bufferSize) :
    (StaysInside kernel comparePath stack (data.map encodeEvents) ↔ data = none) ∧
      ((∀ region, Accesses kernel comparePath stack (data.map encodeEvents) region →
          region.Within 0 bufferSize) ↔
        ∀ events ∈ data, (encodeEvents events).length + eventMetadataLen ≤ bufferSize) := by
  cases data with
  | none =>
      have front : ∀ region, Accesses kernel comparePath stack none region →
          region.Within 0 bufferSize := by
        intro region access
        rw [accesses_failed access]
        decide
      exact ⟨iff_of_true (fun region access => ⟨front region access, nofun⟩) rfl,
        iff_of_true front nofun⟩
  | some events =>
      obtain ⟨last, others⟩ := accesses_events kernel comparePath stack (fits events rfl)
      refine ⟨iff_of_false ?_ nofun, ?_⟩
      · intro inside
        have within := ((inside _ last).2 _ rfl).2
        exact absurd within (Nat.not_le.mpr (Nat.lt_add_of_pos_right (Nat.succ_pos 23)))
      · constructor
        · intro inside list same
          obtain rfl := Option.some.inj same
          exact (inside _ last).2
        · intro room region access
          rcases others region access with within | rfl
          · exact within.mono (Nat.le_refl _) (fits events rfl)
          · exact ⟨Nat.zero_le _, room events rfl⟩

/-- A closed file leaves room in the buffer, and the last copy still reads behind its event. -/
theorem closedFile_overread :
    ¬ StaysInside ⟨fun _ _ _ => none, fun _ _ => none⟩ []
        ⟨List.replicate 280 0, by rw [List.length_replicate]; decide⟩
        (some (encodeEvents [closedFile])) ∧
      ∀ region, Accesses ⟨fun _ _ _ => none, fun _ _ => none⟩ []
        ⟨List.replicate 280 0, by rw [List.length_replicate]; decide⟩
        (some (encodeEvents [closedFile])) region → region.Within 0 bufferSize := by
  have size : (encodeEvents [closedFile]).length + eventMetadataLen ≤ bufferSize := by decide
  have fits : ∀ events ∈ some [closedFile], (encodeEvents events).length ≤ bufferSize := by
    intro events same
    obtain rfl := Option.some.inj same
    exact (Nat.le_add_right _ _).trans size
  have decided := onFsEvent_inside_iff ⟨fun _ _ _ => none, fun _ _ => none⟩ []
    ⟨List.replicate 280 0, by rw [List.length_replicate]; decide⟩ fits
  constructor
  · intro inside
    cases decided.1.mp inside
  · apply decided.2.mpr
    intro events same
    obtain rfl := Option.some.inj same
    exact size

/-- With a name of 179 bytes the event fills the buffer. -/
def fullBufferEvent : KernelEvent where
  mask := 0x8
  pid := 1
  before := some ⟨1, 1, [1, 2, 3], [0], by decide, by decide, by decide⟩
  dfidName := ⟨1, 1, List.replicate 8 2, List.replicate 179 0x62, by decide,
    by simp only [List.length_replicate]; decide,
    fun member => absurd (List.eq_of_mem_replicate member) (by decide)⟩
  after := none
  oneFid := .inr rfl

/-- Behind an event that fills the buffer the last copy reads from the stack behind the buffer. -/
theorem fullBuffer_overread :
    ¬ ∀ (kernel : Kernel) (comparePath : Bytes) (stack : Stack) (data : Option (List KernelEvent)),
      (∀ events ∈ data, (encodeEvents events).length ≤ bufferSize) →
        StaysInside kernel comparePath stack (data.map encodeEvents) := by
  intro always
  have size : (encodeEvents [fullBufferEvent]).length = bufferSize := by
    rw [length_encodeEvents_cons]
    decide +kernel
  have fits : ∀ events ∈ some [fullBufferEvent], (encodeEvents events).length ≤ bufferSize := by
    intro events same
    obtain rfl := Option.some.inj same
    exact Nat.le_of_eq size
  let kernel : Kernel := ⟨fun _ _ _ => none, fun _ _ => none⟩
  let stack : Stack := ⟨List.replicate 280 0, by rw [List.length_replicate]; decide⟩
  have inside := always kernel [] stack (some [fullBufferEvent]) fits
  have last := (accesses_events kernel [] stack (Nat.le_of_eq size)).1
  have within := (inside _ last).1.2
  rw [size] at within
  exact absurd within (by decide)

end ClamavDbscan.Watcher
