import ClamavDbscan.Construction.Watcher.OnFsEvent

/-
This file models how the C watcher reads the target of a link.
-/

namespace ClamavDbscan.Watcher

/-- A write outside of the buffer, a failed assertion and a signed overflow end the process. -/
inductive LinkFailure where
  | fault
  | assertion
  | overflow
  deriving DecidableEq, Repr

/-- The allocator hands out memory of the requested size with unknown content. -/
structure Link where
  lstat : Option Int
  malloc : (call : Nat) → (size : Nat) → Option { memory : Bytes // memory.length = size }
  readlink : (call : Nat) → (size : Nat) → Option Bytes

/-- A failure leaves the caller's pointer as it is. -/
structure ReadLink where
  result : Int
  buf : Option Bytes
  deriving DecidableEq, Repr

abbrev LinkOutcome := Except LinkFailure ReadLink

/-- The loop is before the allocation of this call. -/
structure Attempt where
  call : Nat
  size : Nat
  deriving DecidableEq, Repr

/-- A number is converted to `size_t`. -/
def toSizeT (number : Int) : Nat := (number % 2 ^ 64).toNat

/-- A number is converted to a signed integer of four bytes. -/
def toInt32 (number : Int) : Int := number.bmod (2 ^ 32)

/-- One turn allocates a buffer and reads the link into it. -/
def Link.turn (link : Link) : Attempt → Iteration.Turn Attempt LinkOutcome
  | ⟨call, size⟩ =>
      match link.malloc call size with
      | none => .stop (.error .assertion)
      | some memory =>
          match link.readlink call size with
          | none => .stop (.ok ⟨-1, none⟩)
          | some copied =>
              match Bytes.write memory.val 0 copied with
              | none => .stop (.error .fault)
              | some filled =>
                  if copied.length < size then
                    -- The terminating zero is the only write of the program itself.
                    match Bytes.write filled copied.length [0] with
                    | none => .stop (.error .fault)
                    | some buf => .stop (.ok ⟨toInt32 copied.length, some buf⟩)
                  else .next ⟨call + 1, toSizeT (size * 2)⟩

/-- One call of `safe_readlink` on a link ends with this outcome. The caller's `buf` is never null. -/
def SafeReadlink (link : Link) (outcome : LinkOutcome) : Prop :=
  match link.lstat with
  | none => outcome = .ok ⟨-1, none⟩
  | some stSize =>
      if stSize + 1 < 2 ^ 63 then
        Iteration.Gives link.turn ⟨0, toSizeT (stSize + 1)⟩ outcome
      else outcome = .error .overflow

/-- The caller uses the text `???` instead of a link that cannot be read. -/
def ReadLink.path (read : ReadLink) : Option Bytes :=
  if read.result = -1 then none else read.buf.bind cString

end ClamavDbscan.Watcher
