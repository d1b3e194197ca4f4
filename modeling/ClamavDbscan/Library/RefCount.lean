import Mathlib.Data.List.Perm.Basic
import Mathlib.Data.List.Count

/-
This file counts the references to memory cells and proves when no freed cell is touched.
-/

namespace RefCount

/-- A cell is freed when a release brings its count to zero. -/
structure Cell where
  refcount : Int
  frees : Nat
  deriving DecidableEq, Repr

inductive MemoryCall where
  | allocate
  | retain (index : Nat)
  | use (index : Nat)
  | release (index : Nat)
  deriving DecidableEq

/-- The fault is set when a call touches a cell that has been freed or was never allocated. -/
structure Memory where
  cells : List Cell
  fault : Bool
  deriving DecidableEq, Repr

namespace Cell

def retained (cell : Cell) : Cell := { cell with refcount := cell.refcount + 1 }

def released (cell : Cell) : Cell :=
  ⟨cell.refcount - 1, if cell.refcount - 1 = 0 then cell.frees + 1 else cell.frees⟩

/-- A cell with owners is not free, and without owners it has been freed once. -/
def owned (count : Nat) : Cell := if count = 0 then ⟨0, 1⟩ else ⟨count, 0⟩

@[simp] theorem owned_succ (count : Nat) : owned (count + 1) = ⟨count + 1, 0⟩ := rfl

theorem retained_owned (count : Nat) : (owned (count + 1)).retained = owned (count + 2) := by
  simp [retained]

theorem released_owned (count : Nat) : (owned (count + 1)).released = owned count := by
  cases count with
  | zero => rfl
  | succ count =>
      have more : (count : Int) + 1 ≠ 0 := by omega
      simp [released, more]

end Cell

namespace Memory

def initial : Memory := ⟨[], false⟩

def touch (memory : Memory) (index : Nat) (change : Cell → Cell) : Memory :=
  match memory.cells[index]? with
  | some cell => ⟨memory.cells.set index (change cell), memory.fault || cell.frees != 0⟩
  | none => { memory with fault := true }

def call (memory : Memory) : MemoryCall → Memory
  | .allocate => { memory with cells := memory.cells ++ [⟨1, 0⟩] }
  | .retain index => memory.touch index .retained
  | .use index => memory.touch index id
  | .release index => memory.touch index .released

def calls (memory : Memory) (list : List MemoryCall) : Memory := list.foldl call memory

theorem calls_append (memory : Memory) (first second : List MemoryCall) :
    memory.calls (first ++ second) = (memory.calls first).calls second := List.foldl_append

@[simp] theorem length_touch (memory : Memory) (index : Nat) (change : Cell → Cell) :
    (memory.touch index change).cells.length = memory.cells.length := by
  unfold touch
  split
  · exact List.length_set
  · rfl

/-- Only an allocation makes a cell. -/
theorem length_calls (memory : Memory) (list : List MemoryCall) :
    (memory.calls list).cells.length = memory.cells.length + list.count .allocate := by
  induction list generalizing memory with
  | nil => rfl
  | cons next list ih =>
      rw [calls, List.foldl_cons]
      refine (ih (memory.call next)).trans ?_
      cases next with
      | allocate =>
          rw [List.count_cons_self]
          change (memory.cells ++ [_]).length + _ = _
          rw [List.length_append, List.length_singleton, Nat.add_assoc, Nat.add_comm 1]
      | retain index => simp [call]
      | use index => simp [call]
      | release index => simp [call]

/-- Each cell has its owners, which are listed with their repetitions, and no call has gone wrong. -/
structure Backs (memory : Memory) (owners : List Nat) : Prop where
  sound : memory.fault = false
  counted : ∀ index : Nat, index < memory.cells.length →
    memory.cells[index]? = some (.owned (owners.count index))
  allocated : ∀ index ∈ owners, index < memory.cells.length

namespace Backs

variable {memory : Memory} {owners others : List Nat} {index : Nat}

theorem initial : Memory.initial.Backs [] := ⟨rfl, nofun, nofun⟩

theorem perm (backs : memory.Backs owners) (same : owners.Perm others) : memory.Backs others := by
  refine ⟨backs.sound, ?_, fun index member => backs.allocated index (same.mem_iff.mpr member)⟩
  intro index inside
  rw [← same.count_eq]
  exact backs.counted index inside

/-- A touch of an owned cell changes that cell only. -/
theorem touch (backs : memory.Backs owners) (member : index ∈ owners) (change : Cell → Cell) :
    memory.touch index change =
      ⟨memory.cells.set index (change (.owned (owners.count index))), false⟩ := by
  obtain ⟨count, positive⟩ := Nat.exists_eq_succ_of_ne_zero
    (Nat.ne_of_gt (List.count_pos_iff.mpr member))
  rw [Memory.touch, backs.counted index (backs.allocated index member), backs.sound, positive]
  rfl

/-- The new counts hold if they differ at the touched cell only. -/
theorem set (backs : memory.Backs owners) {cell : Cell} (here : cell = .owned (others.count index))
    (elsewhere : ∀ other, other ≠ index → others.count other = owners.count other)
    (known : ∀ other ∈ others, other ∈ owners) :
    Backs ⟨memory.cells.set index cell, false⟩ others := by
  refine ⟨rfl, ?_, ?_⟩
  · intro other inside
    change other < (memory.cells.set index cell).length at inside
    rw [List.length_set] at inside
    change (memory.cells.set index cell)[other]? = _
    by_cases same : index = other
    · subst same
      rw [List.getElem?_set_self inside, here]
    · rw [List.getElem?_set_ne same, backs.counted other inside, elsewhere other (Ne.symm same)]
  · intro other member
    change other < (memory.cells.set index cell).length
    rw [List.length_set]
    exact backs.allocated other (known other member)

theorem allocate (backs : memory.Backs owners) :
    (memory.call .allocate).Backs (memory.cells.length :: owners) := by
  have fresh : owners.count memory.cells.length = 0 :=
    List.count_eq_zero.mpr fun member => Nat.lt_irrefl _ (backs.allocated _ member)
  refine ⟨backs.sound, ?_, ?_⟩
  · intro index inside
    change index < (memory.cells ++ [_]).length at inside
    rw [List.length_append, List.length_singleton] at inside
    change (memory.cells ++ [_])[index]? = _
    rcases Nat.lt_succ_iff_lt_or_eq.mp inside with old | rfl
    · rw [List.getElem?_append_left old, backs.counted index old,
        List.count_cons_of_ne (Nat.ne_of_gt old)]
    · rw [List.getElem?_concat_length, List.count_cons_self, fresh]
      rfl
  · intro index member
    change index < (memory.cells ++ [_]).length
    rw [List.length_append, List.length_singleton]
    rcases List.mem_cons.mp member with rfl | old
    · exact Nat.lt_succ_self _
    · exact Nat.lt_succ_of_lt (backs.allocated index old)

theorem retain (backs : memory.Backs owners) (member : index ∈ owners) :
    (memory.call (.retain index)).Backs (index :: owners) := by
  obtain ⟨count, positive⟩ := Nat.exists_eq_succ_of_ne_zero
    (Nat.ne_of_gt (List.count_pos_iff.mpr member))
  rw [Memory.call, backs.touch member]
  refine backs.set ?_ ?_ ?_
  · rw [positive, Cell.retained_owned, List.count_cons_self, positive]
  · exact fun other different => List.count_cons_of_ne different.symm
  · intro other known
    rcases List.mem_cons.mp known with rfl | known
    · exact member
    · exact known

theorem use (backs : memory.Backs owners) (member : index ∈ owners) :
    (memory.call (.use index)).Backs owners := by
  rw [Memory.call, backs.touch member]
  exact backs.set rfl (fun _ _ => rfl) fun _ known => known

theorem release (backs : memory.Backs owners) (member : index ∈ owners) :
    (memory.call (.release index)).Backs (owners.erase index) := by
  obtain ⟨count, positive⟩ := Nat.exists_eq_succ_of_ne_zero
    (Nat.ne_of_gt (List.count_pos_iff.mpr member))
  rw [Memory.call, backs.touch member]
  refine backs.set ?_ ?_ fun other known => List.mem_of_mem_erase known
  · rw [positive, Cell.released_owned, List.count_erase_self, positive]
    rfl
  · exact fun other different => List.count_erase_of_ne different

/-- An owner can take any number of references. -/
theorem retainAll (backs : memory.Backs owners) (member : index ∈ owners) (count : Nat) :
    (memory.calls (List.replicate count (.retain index))).Backs (List.replicate count index ++ owners) := by
  induction count generalizing memory owners with
  | zero => exact backs
  | succ count ih =>
      have rest := ih (backs.retain member) (List.mem_cons_of_mem _ member)
      exact rest.perm List.perm_middle

/-- Owners that leave release what they own. -/
theorem releaseAll {leaving : List Nat} (backs : memory.Backs (leaving ++ owners)) :
    (memory.calls (leaving.map .release)).Backs owners := by
  induction leaving generalizing memory with
  | nil => exact backs
  | cons index leaving ih =>
      have rest := backs.release List.mem_cons_self
      rw [List.cons_append, List.erase_cons_head] at rest
      exact ih rest

/-- A cell that is not free has as many owners as its count says. -/
theorem positive (backs : memory.Backs owners) {cell : Cell} (stored : memory.cells[index]? = some cell)
    (unfreed : cell.frees = 0) : 0 < cell.refcount ∧ cell.refcount = owners.count index := by
  have inside := (List.getElem?_eq_some_iff.mp stored).1
  obtain rfl := Option.some.inj (stored.symm.trans (backs.counted index inside))
  cases size : owners.count index with
  | zero =>
      rw [size] at unfreed
      cases unfreed
  | succ count => exact ⟨Int.natCast_succ_pos count, rfl⟩

end Backs

end Memory

end RefCount
