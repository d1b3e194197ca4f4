import ClamavDbscan.Construction.Watcher.TableCalls
import ClamavDbscan.Proof.Watcher.ClientTable

/-
This file proves that the client table holds a set after every sequence of calls.
-/

namespace ClamavDbscan.Watcher

open Transition

namespace ClientTable

variable {table after : ClientTable} {past : List (ClientTable × TableCall)} {last : ClientTable}

/-- These descriptors have been added and not removed since. -/
def live : List (ClientTable × TableCall) → List Int
  | [] => []
  | (_, .add client) :: past => client :: live past
  | (_, .remove client) :: past => (live past).erase client

/-- Growing appends free slots. -/
theorem exists_reserve (table : ClientTable) :
    ∃ count, table.reserve.clients = table.clients ++ List.replicate count (-1) := by
  unfold reserve
  split
  · rename_i empty
    exact ⟨4, by rw [List.length_eq_zero_iff.mp empty]; rfl⟩
  · split
    · exact ⟨table.clients.length, rfl⟩
    · exact ⟨0, (List.append_nil _).symm⟩

/-- The traversal finds as many descriptors as there are and stops before the last slot. -/
theorem traverseFrom_occupied (position : Nat) (slots : List Int) :
    (traverseFrom position (occupied slots).length slots).visited = occupied slots ∧
      ∀ read ∈ (traverseFrom position (occupied slots).length slots).reads,
        read < position + slots.length := by
  induction slots generalizing position with
  | nil => exact ⟨rfl, nofun⟩
  | cons slot others ih =>
      obtain ⟨visited, reads⟩ := ih (position + 1)
      by_cases empty : slot = -1
      · subst empty
        rw [occupied_free_cons]
        cases size : (occupied others).length with
        | zero => exact ⟨(List.length_eq_zero_iff.mp size).symm, nofun⟩
        | succ count =>
            rw [size] at visited reads
            rw [traverseFrom, if_pos rfl]
            refine ⟨visited, ?_⟩
            intro read member
            rw [List.length_cons]
            rcases List.mem_cons.mp member with rfl | later
            · omega
            · have bound := reads read later
              omega
      · rw [occupied_cons empty, List.length_cons, traverseFrom, if_neg empty]
        refine ⟨congrArg (slot :: ·) visited, ?_⟩
        intro read member
        rw [List.length_cons]
        rcases List.mem_cons.mp member with rfl | later
        · omega
        · have bound := reads read later
          omega

/-- The counter of a set lets the traversal visit every descriptor within the capacity. -/
theorem IsSet.traverse (isSet : table.IsSet) :
    table.traverse.visited = table.stored ∧ ∀ read ∈ table.traverse.reads, read < table.clients.length := by
  have walked := traverseFrom_occupied 0 table.clients
  rw [Nat.zero_add] at walked
  rw [ClientTable.traverse, isSet.counted]
  exact walked

/-- The table holds the live descriptors as a set. -/
structure Holds (past : List (ClientTable × TableCall)) (table : ClientTable) : Prop where
  isSet : table.IsSet
  members : table.stored.Perm (live past)
  valid : ∀ fd ∈ table.stored, 0 ≤ fd

theorem holds_run (run : Run system past last) : Holds past last := by
  induction run with
  | start begins =>
      obtain rfl := begins
      exact ⟨IsSet.initial, .nil, nofun⟩
  | @next past table after call earlier taken ih =>
      cases call with
      | add client =>
          obtain ⟨⟨valid, absent⟩, rfl⟩ := Option.ite_some_none_eq_some.mp taken
          have used : client ≠ -1 := by omega
          have added := addClient_stored ih.isSet used
          refine ⟨ih.isSet.addClient used absent, added.trans (ih.members.cons client), ?_⟩
          intro fd member
          rcases List.mem_cons.mp (added.mem_iff.mp member) with rfl | old
          · exact valid
          · exact ih.valid fd old
      | remove client =>
          obtain ⟨member, rfl⟩ := Option.ite_some_none_eq_some.mp taken
          have used : client ≠ -1 := (mem_occupied.mp member).2
          have removed : (table.removeClient client).stored = table.stored.erase client :=
            removeClient_stored used
          refine ⟨ih.isSet.removeClient member, ?_, ?_⟩
          · rw [removed]
            exact ih.members.erase client
          · intro fd other
            rw [removed] at other
            exact ih.valid fd (List.mem_of_mem_erase other)

/-- The slots in use hold exactly the live descriptors, each once, and the counter is their number. The
next call that adds a client finds a slot, growing keeps the slots, and a traversal visits each
descriptor once without a read behind the capacity. -/
structure ClientSet (past : List (ClientTable × TableCall)) (table : ClientTable) : Prop where
  members : ∀ fd, fd ∈ table.stored ↔ fd ∈ live past
  distinct : table.stored.Nodup
  counted : table.clientsCount = table.stored.length ∧ table.clientsCount = (live past).length
  room : table.clientsCount ≤ table.clients.length
  added : ∀ client, ¬ table.NoFreeSlot client
  grown : ∃ count, table.reserve.clients = table.clients ++ List.replicate count (-1)
  visited : table.traverse.visited.Nodup ∧ ∀ fd, fd ∈ table.traverse.visited ↔ fd ∈ table.stored
  reads : ∀ read ∈ table.traverse.reads, read < table.clients.length

theorem client_set (run : Run system past last) : ClientSet past last := by
  obtain ⟨isSet, members, _⟩ := holds_run run
  obtain ⟨visited, reads⟩ := isSet.traverse
  refine ⟨fun fd => members.mem_iff, isSet.distinct, ⟨isSet.counted, ?_⟩, ?_, ?_, exists_reserve last,
    ?_, reads⟩
  · rw [isSet.counted, members.length_eq]
  · rw [isSet.counted]
    exact List.length_filter_le _ _
  · intro client missing
    exact replaceFirst_eq_none.mp missing (free_mem_reserve isSet)
  · rw [visited]
    exact ⟨isSet.distinct, fun _ => Iff.rfl⟩

/-- A table that has grown reuses the slot of a client that has left. -/
theorem client_set_reused : ∃ past last, Run system past last ∧
    last.clients = [3, 9, 5, 6, 7, -1, -1, -1] ∧ ClientSet past last := by
  have begins : Run system [] .initial := .start rfl
  have run := begins.follow [.add 3, .add 4, .add 5, .add 6, .add 7, .remove 4, .add 9] rfl
  exact ⟨_, _, run, rfl, client_set run⟩

end ClientTable

namespace LoopState

variable {δ : Type}

/-- Each client gets a write handle, unless another one watches it. -/
def prepareEach (buffer : Nat) : List Int → LoopState δ → LoopState δ
  | [], loop => loop
  | fd :: others, loop =>
      if loop.watched fd then { loop with control := .aborted }
      else
        prepareEach buffer others { loop with
          handles := loop.handles ++ [⟨fd, buffer, true, false⟩]
          buffers := ref loop.buffers buffer }

/-- Without a read behind the last slot the loop prepares the descriptors that the traversal visits. -/
theorem prepare_eq_prepareEach (buffer position count : Nat) (slots : List Int) (loop : LoopState δ)
    (reads : ∀ read ∈ (ClientTable.traverseFrom position count slots).reads,
      read < position + slots.length) :
    prepare buffer count slots loop =
      prepareEach buffer (ClientTable.traverseFrom position count slots).visited loop := by
  induction slots generalizing position count loop with
  | nil =>
      cases count with
      | zero => rfl
      | succ count => exact absurd (reads position List.mem_cons_self) (Nat.lt_irrefl _)
  | cons slot others ih =>
      cases count with
      | zero => rfl
      | succ count =>
          rw [ClientTable.traverseFrom] at reads ⊢
          rw [prepare]
          split
          · rename_i empty
            rw [if_pos empty] at reads
            refine ih (position + 1) (count + 1) loop ?_
            intro read later
            have bound := reads read (List.mem_cons_of_mem _ later)
            rw [List.length_cons] at bound
            omega
          · rename_i used
            rw [if_neg used] at reads
            rw [prepareEach]
            split
            · rfl
            · refine ih (position + 1) count _ ?_
              intro read later
              have bound := reads read (List.mem_cons_of_mem _ later)
              rw [List.length_cons] at bound
              omega

/-- The loop of a broadcast prepares the stored descriptors in order. -/
theorem prepare_stored {table : ClientTable} (isSet : table.IsSet) (buffer : Nat) (loop : LoopState δ) :
    prepare buffer table.clientsCount table.clients loop = prepareEach buffer table.stored loop := by
  obtain ⟨visited, reads⟩ := isSet.traverse
  have same := prepare_eq_prepareEach buffer 0 table.clientsCount table.clients loop
    (by rw [Nat.zero_add]; exact reads)
  rw [same]
  exact congrArg (prepareEach buffer · loop) visited

end LoopState

end ClamavDbscan.Watcher
