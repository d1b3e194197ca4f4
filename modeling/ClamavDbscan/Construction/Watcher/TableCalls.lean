import ClamavDbscan.Construction.Watcher.EventLoop

/-
This file models sequences of calls on the client table and the reads of its traversal.
-/

namespace ClamavDbscan.Watcher

inductive TableCall where
  | add (client : Int)
  | remove (client : Int)
  deriving DecidableEq

/-- A traversal reads slots and visits the descriptors that it finds. -/
structure Traversal where
  reads : List Nat
  visited : List Int
  deriving DecidableEq

namespace ClientTable

/-- The callers add descriptors that the table does not hold, and they remove those that it holds. -/
def call (table : ClientTable) : TableCall → Option ClientTable
  | .add client => if 0 ≤ client ∧ client ∉ table.stored then some (table.addClient client) else none
  | .remove client => if client ∈ table.stored then some (table.removeClient client) else none

def system : Transition.System ClientTable TableCall := ⟨(· = initial), call⟩

/-- The line `Should not happen` is printed. -/
def NoFreeSlot (table : ClientTable) (client : Int) : Prop :=
  replaceFirst (-1) client table.reserve.clients = none

/-- Behind the last slot there is nothing to find, and the read itself is recorded. -/
def traverseFrom (position : Nat) : (count : Nat) → (slots : List Int) → Traversal
  | 0, _ => ⟨[], []⟩
  | _ + 1, [] => ⟨[position], []⟩
  | count + 1, slot :: others =>
      if slot = -1 then
        let rest := traverseFrom (position + 1) (count + 1) others
        ⟨position :: rest.reads, rest.visited⟩
      else
        let rest := traverseFrom (position + 1) count others
        ⟨position :: rest.reads, slot :: rest.visited⟩

/-- The loop of `send_jsons` goes on until it has visited as many descriptors as the counter says. -/
def traverse (table : ClientTable) : Traversal :=
  traverseFrom 0 table.clientsCount table.clients

end ClientTable

end ClamavDbscan.Watcher
