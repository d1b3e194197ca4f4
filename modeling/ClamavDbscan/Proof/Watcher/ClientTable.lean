import ClamavDbscan.Construction.Watcher.EventLoop
import Mathlib.Data.List.Perm.Basic

/-
This file proves that the client table of the C watcher is a set of descriptors.
-/

namespace ClamavDbscan.Watcher.ClientTable

variable {table : ClientTable} {fd old new : Int} {slots changed : List Int}

/-- The counter is the number of stored descriptors, and no descriptor is stored twice. -/
structure IsSet (table : ClientTable) : Prop where
  counted : table.clientsCount = table.stored.length
  distinct : table.stored.Nodup

@[simp] theorem occupied_append (front back : List Int) :
    occupied (front ++ back) = occupied front ++ occupied back :=
  List.filter_append _ _

@[simp] theorem occupied_free_cons (slots : List Int) : occupied (-1 :: slots) = occupied slots :=
  rfl

theorem occupied_cons (used : fd ≠ -1) (slots : List Int) :
    occupied (fd :: slots) = fd :: occupied slots := by
  simp [occupied, used]

@[simp] theorem occupied_replicate (count : Nat) : occupied (List.replicate count (-1)) = [] := by
  simp [occupied]

theorem mem_occupied : fd ∈ occupied slots ↔ fd ∈ slots ∧ fd ≠ -1 := by
  simp [occupied]

theorem replaceFirst_some (replaced : replaceFirst old new slots = some changed) :
    ∃ front back, slots = front ++ old :: back ∧ old ∉ front ∧ changed = front ++ new :: back := by
  induction slots generalizing changed with
  | nil => contradiction
  | cons slot others ih =>
      rw [replaceFirst] at replaced
      split at replaced
      · rename_i found
        subst found
        obtain rfl := Option.some.inj replaced
        exact ⟨[], others, rfl, List.not_mem_nil, rfl⟩
      · rename_i other
        obtain ⟨rest, later, rfl⟩ := Option.map_eq_some_iff.mp replaced
        obtain ⟨front, back, rfl, absent, rfl⟩ := ih later
        refine ⟨slot :: front, back, rfl, ?_, rfl⟩
        rw [List.mem_cons, not_or]
        exact ⟨fun same => other same.symm, absent⟩

theorem replaceFirst_eq_none : replaceFirst old new slots = none ↔ old ∉ slots := by
  induction slots with
  | nil => simp [replaceFirst]
  | cons slot others ih =>
      rw [replaceFirst]
      split
      · rename_i found
        simp [found]
      · rename_i other
        rw [Option.map_eq_none_iff, ih, List.mem_cons, not_or]
        exact ⟨fun absent => ⟨fun same => other same.symm, absent⟩, And.right⟩

@[simp] theorem reserve_clientsCount : table.reserve.clientsCount = table.clientsCount := by
  unfold reserve
  split
  · rfl
  · split <;> rfl

/-- Growing keeps every stored descriptor. -/
@[simp] theorem reserve_stored : table.reserve.stored = table.stored := by
  unfold reserve stored
  split
  · rename_i empty
    simp [List.length_eq_zero_iff.mp empty, occupied]
  · split <;> simp

/-- A table with room for all of its clients has a free slot after `reserve`. -/
theorem free_mem_reserve (isSet : table.IsSet) : -1 ∈ table.reserve.clients := by
  unfold reserve
  split
  · simp
  · rename_i allocated
    split
    · simp [List.mem_replicate, allocated]
    · rename_i room
      rw [isSet.counted] at room
      have fewer : table.stored.length < table.clients.length :=
        Nat.lt_of_le_of_ne (List.length_filter_le _ _) room
      obtain ⟨slot, member, free⟩ := List.length_filter_lt_length_iff_exists.mp fewer
      simp only [ne_eq, decide_not, Bool.not_eq_true', decide_eq_false_iff_not, not_not] at free
      exact free ▸ member

/-- A new client takes the place of the first free slot. -/
theorem addClient_eq (isSet : table.IsSet) (fd : Int) :
    ∃ front back, table.reserve.clients = front ++ -1 :: back ∧
      table.addClient fd = ⟨front ++ fd :: back, table.clientsCount + 1⟩ := by
  cases replaced : replaceFirst (-1) fd table.reserve.clients with
  | none => exact absurd (free_mem_reserve isSet) (replaceFirst_eq_none.mp replaced)
  | some clients =>
      obtain ⟨front, back, before, _, rfl⟩ := replaceFirst_some replaced
      refine ⟨front, back, before, ?_⟩
      simp only [addClient, replaced, reserve_clientsCount]

theorem addClient_stored (isSet : table.IsSet) (valid : fd ≠ -1) :
    (table.addClient fd).stored.Perm (fd :: table.stored) := by
  obtain ⟨front, back, before, added⟩ := addClient_eq isSet fd
  have kept : table.stored = occupied front ++ occupied back := by
    rw [← reserve_stored, stored, before, occupied_append, occupied_free_cons]
  rw [added, kept, stored, occupied_append, occupied_cons valid]
  exact List.perm_middle

theorem IsSet.addClient (isSet : table.IsSet) (valid : fd ≠ -1) (absent : fd ∉ table.stored) :
    (table.addClient fd).IsSet := by
  have added := addClient_stored isSet valid
  constructor
  · obtain ⟨front, back, _, counted⟩ := addClient_eq isSet fd
    rw [added.length_eq, counted, List.length_cons, isSet.counted]
  · exact added.nodup_iff.mpr (List.nodup_cons.mpr ⟨absent, isSet.distinct⟩)

/-- A removed client leaves a free slot. -/
theorem removeClient_stored (valid : fd ≠ -1) :
    (table.removeClient fd).stored = table.stored.erase fd := by
  unfold removeClient stored
  split
  · rename_i clients replaced
    obtain ⟨front, back, before, absent, rfl⟩ := replaceFirst_some replaced
    have elsewhere : fd ∉ occupied front := fun member => absent (mem_occupied.mp member).1
    rw [before, occupied_append, occupied_append, occupied_cons valid, occupied_free_cons,
      List.erase_append_right _ elsewhere, List.erase_cons_head]
  · rename_i missing
    rw [List.erase_of_not_mem]
    intro member
    exact replaceFirst_eq_none.mp missing (mem_occupied.mp member).1

theorem IsSet.removeClient (isSet : table.IsSet) (member : fd ∈ table.stored) :
    (table.removeClient fd).IsSet := by
  obtain ⟨slot, valid⟩ := mem_occupied.mp member
  have removed : (table.removeClient fd).stored = table.stored.erase fd :=
    removeClient_stored valid
  constructor
  · rw [removed, List.length_erase_of_mem member, ← isSet.counted]
    unfold ClientTable.removeClient
    split
    · rfl
    · rename_i missing
      exact absurd slot (replaceFirst_eq_none.mp missing)
  · rw [removed]
    exact isSet.distinct.erase fd

theorem IsSet.initial : ClientTable.initial.IsSet :=
  ⟨rfl, List.nodup_nil⟩

end ClamavDbscan.Watcher.ClientTable
