import ClamavDbscan.Library.Bytes

/-
This file defines computations that load regions of a memory and the rules for where they load.
-/

universe u

/-- A computation gives its value or loads one region and goes on with the bytes. -/
inductive Loads (α : Type u) where
  | give (value : α)
  | load (offset length : Nat) (next : Bytes → Loads α)

namespace Loads

variable {α β : Type u}

/-- A region is given by its first offset and its length. -/
structure Region where
  offset : Nat
  length : Nat
  deriving DecidableEq, Repr

/-- The region lies between these offsets. -/
def Region.Within (region : Region) (low high : Nat) : Prop :=
  low ≤ region.offset ∧ region.offset + region.length ≤ high

instance (region : Region) (low high : Nat) : Decidable (region.Within low high) :=
  inferInstanceAs (Decidable (_ ∧ _))

theorem Region.Within.mono {region : Region} {low high bottom top : Nat}
    (within : region.Within low high) (below : bottom ≤ low) (above : high ≤ top) :
    region.Within bottom top :=
  ⟨below.trans within.1, within.2.trans above⟩

def bind (first : Loads α) (second : α → Loads β) : Loads β :=
  match first with
  | .give value => second value
  | .load offset length next => .load offset length fun bytes => (next bytes).bind second

instance : Monad Loads where
  pure := .give
  bind := bind

/-- A load outside of the memory faults. -/
def run (memory : Bytes) : Loads α → Option α
  | .give value => some value
  | .load offset length next =>
      (Bytes.read memory offset length).bind fun bytes => (next bytes).run memory

/-- The regions are listed in the order of their loads, and a fault ends the list. -/
def regions (memory : Bytes) : Loads α → List Region
  | .give _ => []
  | .load offset length next =>
      ⟨offset, length⟩ ::
        ((Bytes.read memory offset length).map fun bytes => (next bytes).regions memory).getD []

def bytes (offset length : Nat) : Loads Bytes := .load offset length .give

def nat (offset length : Nat) : Loads Nat :=
  .load offset length fun bytes => .give (Bytes.littleEndian bytes)

/-- Bytes are loaded one by one up to a zero byte or to the end of the room. -/
def string : (room start : Nat) → Loads Bytes
  | 0, _ => pure []
  | room + 1, start => do
      let byte ← nat start 1
      if byte = 0 then pure []
      else
        let rest ← string room (start + 1)
        pure (UInt8.ofNat byte :: rest)

section Run

variable (memory : Bytes)

@[simp] theorem run_pure (value : α) : (pure value : Loads α).run memory = some value := rfl

@[simp] theorem run_bytes (offset length : Nat) :
    (bytes offset length).run memory = Bytes.read memory offset length := by
  simp only [bytes, run]
  cases Bytes.read memory offset length <;> rfl

@[simp] theorem run_nat (offset length : Nat) :
    (nat offset length).run memory = Bytes.readNat memory offset length := by
  simp only [nat, run, Bytes.readNat]
  cases Bytes.read memory offset length <;> rfl

@[simp] theorem run_bind (first : Loads α) (second : α → Loads β) :
    (first >>= second).run memory = (first.run memory).bind fun value => (second value).run memory := by
  change (first.bind second).run memory = _
  induction first with
  | give value => rfl
  | load offset length next ih =>
      simp only [bind, run]
      cases Bytes.read memory offset length with
      | none => rfl
      | some bytes => exact ih bytes

@[simp] theorem regions_pure (value : α) : (pure value : Loads α).regions memory = [] := rfl

@[simp] theorem regions_bytes (offset length : Nat) :
    (bytes offset length).regions memory = [⟨offset, length⟩] := by
  simp only [bytes, regions]
  cases Bytes.read memory offset length <;> rfl

/-- A computation loads what its parts load. -/
theorem regions_bind (first : Loads α) (second : α → Loads β) :
    (first >>= second).regions memory = first.regions memory ++
      ((first.run memory).map fun value => (second value).regions memory).getD [] := by
  change (first.bind second).regions memory = _
  induction first with
  | give value => rfl
  | load offset length next ih =>
      simp only [bind, regions, run]
      cases Bytes.read memory offset length with
      | none => rfl
      | some bytes =>
          simp only [Option.map_some, Option.getD_some, Option.bind_some, List.cons_append, ih]

/-- A computation faults exactly when one of its regions ends outside of the memory. -/
theorem run_eq_none_iff (loads : Loads α) :
    loads.run memory = none ↔
      ∃ region ∈ loads.regions memory, memory.length < region.offset + region.length := by
  induction loads with
  | give value => simp [run, regions]
  | load offset length next ih =>
      simp only [run, regions, List.mem_cons, exists_eq_or_imp]
      unfold Bytes.read
      split
      · rename_i inside
        simp only [Option.bind_some, Option.map_some, Option.getD_some, ih]
        constructor
        · exact .inr
        · exact fun outside => outside.resolve_left (Nat.not_lt.mpr inside)
      · rename_i outside
        simpa using Nat.not_le.mp outside

end Run

/-- The computation loads between these offsets only and gives such a value. -/
def Stays (memory : Bytes) (low high : Nat) (loads : Loads α) (post : α → Prop) : Prop :=
  (∀ region ∈ loads.regions memory, region.Within low high) ∧
    ∃ value, loads.run memory = some value ∧ post value

namespace Stays

variable {memory : Bytes} {low high : Nat} {loads : Loads α} {post : α → Prop}

theorem give {value : α} (holds : post value) : Stays memory low high (pure value) post :=
  ⟨fun _ member => absurd member List.not_mem_nil, value, rfl, holds⟩

theorem bind {first : Loads α} {second : α → Loads β} {middle : α → Prop} {final : β → Prop}
    (starts : Stays memory low high first middle)
    (goes : ∀ value, first.run memory = some value → middle value →
      Stays memory low high (second value) final) :
    Stays memory low high (first >>= second) final := by
  obtain ⟨regions, value, given, holds⟩ := starts
  obtain ⟨others, result, ends, last⟩ := goes value given holds
  refine ⟨?_, result, ?_, last⟩
  · rw [regions_bind, given]
    intro region member
    rcases List.mem_append.mp member with earlier | later
    · exact regions region earlier
    · exact others region later
  · rw [run_bind, given]
    exact ends

/-- A region between the offsets is loaded from the memory. -/
theorem bytes {offset length : Nat} (begins : low ≤ offset) (ends : offset + length ≤ high)
    (mapped : high ≤ memory.length) :
    Stays memory low high (Loads.bytes offset length)
      fun bytes => Bytes.read memory offset length = some bytes := by
  have inside : offset + length ≤ memory.length := ends.trans mapped
  refine ⟨?_, _, ?_, if_pos inside⟩
  · intro region member
    rw [regions_bytes, List.mem_singleton] at member
    subst member
    exact ⟨begins, ends⟩
  · rw [run_bytes, Bytes.read, if_pos inside]

theorem nat {offset length : Nat} (begins : low ≤ offset) (ends : offset + length ≤ high)
    (mapped : high ≤ memory.length) :
    Stays memory low high (Loads.nat offset length)
      fun number => Bytes.readNat memory offset length = some number :=
  Stays.bind (bytes begins ends mapped) fun value _ found =>
    give (by rw [Bytes.readNat, found, Option.map_some])

/-- A string with room inside of the offsets is empty when it has no room or begins with zero. -/
theorem string {room start : Nat} (begins : low ≤ start) (ends : start + room ≤ high)
    (mapped : high ≤ memory.length) :
    Stays memory low high (Loads.string room start)
      fun name => name = [] ↔ room = 0 ∨ Bytes.readNat memory start 1 = some 0 := by
  induction room generalizing start with
  | zero => exact give (by simp)
  | succ room ih =>
      refine bind (nat begins (by omega) mapped) fun byte _ found => ?_
      split
      · rename_i zero
        exact give (by simp [found, zero])
      · rename_i nonzero
        exact bind (ih (by omega) (by omega)) fun rest _ _ => give (by simp [found, nonzero])

/-- A string with its terminator between the offsets is loaded up to the terminator. -/
theorem string_terminated {room start : Nat} {name after : Bytes}
    (holds : Bytes.Holds memory start (name ++ 0 :: after)) (terminated : 0 ∉ name)
    (fits : name.length < room) (begins : low ≤ start) (ends : start + name.length < high)
    (mapped : high ≤ memory.length) :
    Stays memory low high (Loads.string room start) (· = name) := by
  induction name generalizing room start with
  | nil =>
      obtain ⟨room, rfl⟩ := Nat.exists_eq_succ_of_ne_zero (Nat.ne_of_gt fits)
      refine bind (nat begins ends mapped) fun byte _ found => ?_
      obtain rfl := Option.some.inj (holds.readNat_one.symm.trans found)
      exact give rfl
  | cons first others ih =>
      obtain ⟨room, rfl⟩ := Nat.exists_eq_succ_of_ne_zero (Nat.ne_of_gt (Nat.zero_lt_of_lt fits))
      rw [List.mem_cons, not_or] at terminated
      rw [List.length_cons] at fits ends
      refine bind (nat begins (by omega) mapped) fun byte _ found => ?_
      obtain rfl := Option.some.inj (holds.readNat_one.symm.trans found)
      have nonzero : first.toNat ≠ 0 := fun zero => terminated.1 (UInt8.toNat_inj.mp zero).symm
      rw [if_neg nonzero]
      refine bind (ih holds.tail terminated.2 (by omega) (by omega) (by omega)) fun rest _ same => ?_
      exact give (by rw [same, UInt8.ofNat_toNat])

theorem mono {bottom top : Nat} {weaker : α → Prop} (stays : Stays memory low high loads post)
    (below : bottom ≤ low) (above : high ≤ top) (weakens : ∀ value, post value → weaker value) :
    Stays memory bottom top loads weaker := by
  obtain ⟨regions, value, given, holds⟩ := stays
  exact ⟨fun region member => (regions region member).mono below above, value, given,
    weakens value holds⟩

end Stays

end Loads
