import Mathlib.Data.List.Basic
import Mathlib.Algebra.Order.Ring.Nat

/-
This file defines byte strings, little-endian numbers and reads from a bounded memory.
-/

abbrev Bytes := List UInt8

namespace Bytes

/-- The first byte of a little-endian number counts least. -/
def littleEndian : Bytes → Nat
  | [] => 0
  | byte :: rest => byte.toNat + 256 * littleEndian rest

/-- A number is written in a fixed number of bytes and loses what does not fit. -/
def ofNat : (width : Nat) → Nat → Bytes
  | 0, _ => []
  | width + 1, number => UInt8.ofNat number :: ofNat width (number / 256)

@[simp] theorem length_ofNat (width number : Nat) : (ofNat width number).length = width := by
  induction width generalizing number with
  | zero => rfl
  | succ width ih => simp [ofNat, ih]

/-- Writing and reading back keeps a number that fits. -/
theorem littleEndian_ofNat {width number : Nat} (fits : number < 256 ^ width) :
    littleEndian (ofNat width number) = number := by
  induction width generalizing number with
  | zero =>
      rw [pow_zero, Nat.lt_one_iff] at fits
      simp [ofNat, littleEndian, fits]
  | succ width ih =>
      have rest : number / 256 < 256 ^ width := by
        rw [pow_succ] at fits
        omega
      rw [ofNat, littleEndian, ih rest, UInt8.toNat_ofNat']
      omega

/-- A read outside of the memory faults. -/
def read (memory : Bytes) (offset length : Nat) : Option Bytes :=
  if offset + length ≤ memory.length then some ((memory.drop offset).take length) else none

def readNat (memory : Bytes) (offset length : Nat) : Option Nat :=
  (read memory offset length).map littleEndian

theorem read_isSome {memory : Bytes} {offset length : Nat} {bytes : Bytes}
    (found : read memory offset length = some bytes) : offset + length ≤ memory.length :=
  (Option.ite_none_right_eq_some.mp found).1

theorem readNat_bound {memory : Bytes} {offset length number : Nat}
    (found : readNat memory offset length = some number) : offset + length ≤ memory.length := by
  obtain ⟨bytes, present, _⟩ := Option.map_eq_some_iff.mp found
  exact read_isSome present

/-- A read inside of the front part does not see the part behind it. -/
theorem read_append {front : Bytes} {offset length : Nat} (inside : offset + length ≤ front.length)
    (back : Bytes) : read (front ++ back) offset length = read front offset length := by
  have longer : offset + length ≤ (front ++ back).length := by
    rw [List.length_append]
    omega
  rw [read, read, if_pos inside, if_pos longer, List.drop_append_of_le_length (by omega),
    List.take_append_of_le_length (by rw [List.length_drop]; omega)]

theorem readNat_append {front : Bytes} {offset length : Nat} (inside : offset + length ≤ front.length)
    (back : Bytes) : readNat (front ++ back) offset length = readNat front offset length := by
  rw [readNat, readNat, read_append inside]

/-- A read inside of the memory succeeds. -/
theorem exists_readNat {memory : Bytes} {offset length : Nat} (inside : offset + length ≤ memory.length) :
    ∃ number, readNat memory offset length = some number := by
  rw [readNat, read, if_pos inside]
  exact ⟨_, rfl⟩

/-- A write outside of the memory faults. -/
def write (memory : Bytes) (offset : Nat) (bytes : Bytes) : Option Bytes :=
  if offset + bytes.length ≤ memory.length then
    some (memory.take offset ++ bytes ++ memory.drop (offset + bytes.length))
  else none

/-- A write replaces the middle of the memory. -/
theorem write_middle (front back : Bytes) {old bytes : Bytes} (same : bytes.length = old.length) :
    write (front ++ old ++ back) front.length bytes = some (front ++ bytes ++ back) := by
  have inside : front.length + bytes.length ≤ (front ++ old ++ back).length := by
    simp only [List.length_append]
    omega
  have behind : (front ++ old ++ back).drop (front.length + bytes.length) = back := by
    rw [same, ← List.length_append, List.drop_left]
  rw [write, if_pos inside, behind, List.append_assoc front old, List.take_left]

/-- A write at the front keeps what lies behind it. -/
theorem write_front {memory bytes : Bytes} (fits : bytes.length ≤ memory.length) :
    write memory 0 bytes = some (bytes ++ memory.drop bytes.length) := by
  rw [write, if_pos (by rwa [Nat.zero_add]), Nat.zero_add, List.take_zero, List.nil_append]

/-- The memory holds these bytes from this offset on. -/
def Holds (memory : Bytes) (offset : Nat) (bytes : Bytes) : Prop :=
  ∃ front back, memory = front ++ bytes ++ back ∧ front.length = offset

namespace Holds

variable {memory bytes front back : Bytes} {offset : Nat}

theorem self (bytes : Bytes) : Holds bytes 0 bytes :=
  ⟨[], [], by simp, rfl⟩

theorem left (holds : Holds memory offset (front ++ back)) : Holds memory offset front := by
  obtain ⟨before, after, rfl, rfl⟩ := holds
  exact ⟨before, back ++ after, by simp, rfl⟩

theorem right (holds : Holds memory offset (front ++ back)) :
    Holds memory (offset + front.length) back := by
  obtain ⟨before, after, rfl, rfl⟩ := holds
  exact ⟨before ++ front, after, by simp, List.length_append⟩

theorem slice (holds : Holds memory offset bytes) :
    (memory.drop offset).take bytes.length = bytes := by
  obtain ⟨before, after, rfl, rfl⟩ := holds
  simp

theorem bound (holds : Holds memory offset bytes) : offset + bytes.length ≤ memory.length := by
  obtain ⟨before, after, rfl, rfl⟩ := holds
  simp only [List.length_append]
  omega

/-- A read of the held bytes gives them. -/
theorem read (holds : Holds memory offset bytes) :
    Bytes.read memory offset bytes.length = some bytes := by
  obtain ⟨before, after, rfl, rfl⟩ := holds
  simp [Bytes.read]

theorem readNat {width number : Nat} (holds : Holds memory offset (ofNat width number))
    (fits : number < 256 ^ width) : Bytes.readNat memory offset width = some number := by
  have found := holds.read
  rw [length_ofNat] at found
  rw [Bytes.readNat, found, Option.map_some, littleEndian_ofNat fits]

/-- One held byte is read as a number. -/
theorem readNat_one {byte : UInt8} {rest : Bytes} (holds : Holds memory offset (byte :: rest)) :
    Bytes.readNat memory offset 1 = some byte.toNat := by
  have first : Holds memory offset ([byte] ++ rest) := holds
  have found := first.left.read
  rw [List.length_singleton] at found
  rw [Bytes.readNat, found]
  simp [littleEndian]

theorem tail {byte : UInt8} {rest : Bytes} (holds : Holds memory offset (byte :: rest)) :
    Holds memory (offset + 1) rest := by
  have first : Holds memory offset ([byte] ++ rest) := holds
  exact first.right

/-- The held bytes and what follows them are the rest of the memory. -/
theorem drop (holds : Holds memory offset bytes) :
    ∃ after, memory.drop offset = bytes ++ after := by
  obtain ⟨before, after, rfl, rfl⟩ := holds
  exact ⟨after, by simp⟩

end Holds

end Bytes
