import ClamavDbscan.Construction.Watcher.SafeReadlink
import ClamavDbscan.Proof.Watcher.Document

/-
This file proves that the C watcher reads the whole target of a link.
-/

namespace ClamavDbscan.Watcher

open Fanotify Iteration

variable {link : Link} {reported call size : Nat} {target : Bytes} {outcome : LinkOutcome}

/-- The first buffer has room for the reported size and a zero. -/
def firstAttempt (reported : Nat) : Attempt := ⟨0, toSizeT (reported + 1)⟩

/-- Each `readlink` of the loop copies what fits of the target. -/
structure Link.Reads (link : Link) (reported : Nat) (target : Bytes) : Prop where
  lstat : link.lstat = some (reported : Int)
  readlink : ∀ attempt, Passes link.turn (firstAttempt reported) attempt →
    link.readlink attempt.call attempt.size = some (target.take attempt.size)

/-- Each `malloc` of the loop succeeds. -/
def Link.Allocates (link : Link) (reported : Nat) : Prop :=
  ∀ attempt, Passes link.turn (firstAttempt reported) attempt →
    (link.malloc attempt.call attempt.size).isSome

/-- The call ends with the length of the target and a buffer with the target and a zero behind it. -/
def Link.ReturnsTarget (link : Link) (target : Bytes) : Prop :=
  ∃ rest, ∀ outcome, SafeReadlink link outcome ↔
    outcome = .ok ⟨target.length, some (target ++ 0 :: rest)⟩

theorem toSizeT_of_lt (fits : size < 2 ^ 64) : toSizeT size = size := by
  rw [toSizeT]
  omega

theorem toInt32_of_lt (fits : size < 2 ^ 31) : toInt32 size = size := by
  rw [toInt32, Int.bmod_eq_emod_of_lt (by omega)]
  omega

/-- A buffer that the target fills is too small, and the next one is twice as long. -/
theorem turn_full {memory : { memory : Bytes // memory.length = size }}
    (allocated : link.malloc call size = some memory)
    (copied : link.readlink call size = some (target.take size)) (full : size ≤ target.length) :
    link.turn ⟨call, size⟩ = .next ⟨call + 1, toSizeT (size * 2)⟩ := by
  have length : (target.take size).length = size := List.length_take_of_le full
  have fits : (target.take size).length ≤ memory.val.length := by
    rw [length, memory.property]
  simp only [Link.turn, allocated, copied, Bytes.write_front fits, length, lt_self_iff_false, if_false]

/-- A buffer with a byte to spare takes the target and a zero behind it. -/
theorem turn_room {memory : { memory : Bytes // memory.length = size }}
    (allocated : link.malloc call size = some memory)
    (copied : link.readlink call size = some (target.take size)) (room : target.length < size) :
    ∃ rest, link.turn ⟨call, size⟩ =
      .stop (.ok ⟨toInt32 target.length, some (target ++ 0 :: rest)⟩) := by
  have whole : target.take size = target := List.take_of_length_le (Nat.le_of_lt room)
  have spare : target.length < memory.val.length := by
    rw [memory.property]
    exact room
  obtain ⟨byte, rest, split⟩ : ∃ byte rest, memory.val.drop target.length = byte :: rest :=
    ⟨_, _, List.drop_eq_getElem_cons spare⟩
  have zero : Bytes.write (target ++ byte :: rest) target.length [0] = some (target ++ 0 :: rest) := by
    have same : ([0] : Bytes).length = [byte].length := rfl
    have written := Bytes.write_middle target rest same
    simpa only [List.append_assoc, List.singleton_append] using written
  refine ⟨rest, ?_⟩
  simp only [Link.turn, allocated, copied, whole, Bytes.write_front (Nat.le_of_lt spare), split, zero,
    if_pos room]

/-- The loop is at a buffer whose size has not wrapped around. -/
structure Link.AtBuffer (link : Link) (reported : Nat) (attempt : Attempt) : Prop where
  reached : Passes link.turn (firstAttempt reported) attempt
  positive : 0 < attempt.size
  bounded : attempt.size < 2 ^ 64

theorem firstAttempt_atBuffer (link : Link) (representable : reported + 1 < 2 ^ 63) :
    link.AtBuffer reported (firstAttempt reported) := by
  have size : (firstAttempt reported).size = reported + 1 := by
    have fits : reported + 1 < 2 ^ 64 := by omega
    exact_mod_cast toSizeT_of_lt fits
  exact ⟨Passes.refl _ _, by omega, by omega⟩

/-- One turn doubles a buffer that the target fills and hands out any other one. -/
theorem turn_cases {attempt : Attempt} (reads : link.Reads reported target)
    (allocates : link.Allocates reported) (sized : target.length < 2 ^ 63)
    (holds : link.AtBuffer reported attempt) :
    (attempt.size ≤ target.length ∧
      link.turn attempt = .next ⟨attempt.call + 1, attempt.size * 2⟩) ∨
    ∃ rest, link.turn attempt =
      .stop (.ok ⟨toInt32 target.length, some (target ++ 0 :: rest)⟩) := by
  obtain ⟨memory, allocated⟩ := Option.isSome_iff_exists.mp (allocates attempt holds.reached)
  have copied := reads.readlink attempt holds.reached
  rcases Nat.lt_or_ge target.length attempt.size with room | full
  · exact .inr (turn_room allocated copied room)
  · have doubled : toSizeT ((attempt.size : Int) * 2) = attempt.size * 2 := by
      have fits : attempt.size * 2 < 2 ^ 64 := by omega
      exact_mod_cast toSizeT_of_lt fits
    have turned := turn_full allocated copied full
    rw [doubled] at turned
    exact .inl ⟨full, turned⟩

/-- The loop ends with the whole target and its length as an `int`. -/
theorem gives_target (reads : link.Reads reported target) (allocates : link.Allocates reported)
    (sized : target.length < 2 ^ 63) (representable : reported + 1 < 2 ^ 63) :
    ∃ rest, Gives link.turn (firstAttempt reported)
      (.ok ⟨toInt32 target.length, some (target ++ 0 :: rest)⟩) := by
  have lowered : ∀ attempt after, link.AtBuffer reported attempt → link.turn attempt = .next after →
      link.AtBuffer reported after ∧
        target.length + 1 - after.size < target.length + 1 - attempt.size := by
    intro attempt after holds turned
    rcases turn_cases reads allocates sized holds with ⟨full, doubled⟩ | ⟨_, stopped⟩
    · obtain rfl := Turn.next.inj (turned.symm.trans doubled)
      have positive := holds.positive
      exact ⟨⟨holds.reached.trans (Passes.step doubled), by simp only; omega, by simp only; omega⟩,
        by simp only; omega⟩
    · cases turned.symm.trans stopped
  have ends : ∀ attempt outcome, link.AtBuffer reported attempt → link.turn attempt = .stop outcome →
      ∃ rest, outcome = .ok ⟨toInt32 target.length, some (target ++ 0 :: rest)⟩ := by
    intro attempt outcome holds turned
    rcases turn_cases reads allocates sized holds with ⟨_, doubled⟩ | ⟨rest, stopped⟩
    · cases turned.symm.trans doubled
    · exact ⟨rest, Turn.stop.inj (turned.symm.trans stopped)⟩
  obtain ⟨_, found, rest, rfl⟩ := gives_of_measure _
    (fun attempt => target.length + 1 - attempt.size) _ lowered ends
    (firstAttempt_atBuffer link representable)
  exact ⟨rest, found⟩

theorem safeReadlink_iff_gives (reported_eq : link.lstat = some (reported : Int))
    (representable : reported + 1 < 2 ^ 63) :
    SafeReadlink link outcome ↔ Gives link.turn (firstAttempt reported) outcome := by
  have inside : (reported : Int) + 1 < 2 ^ 63 := by omega
  simp only [SafeReadlink, reported_eq, if_pos inside, firstAttempt]

/-- The call has one outcome, and only the returned length can differ from the one of the target. -/
theorem safeReadlink_target (reads : link.Reads reported target) (allocates : link.Allocates reported)
    (sized : target.length < 2 ^ 63) (representable : reported + 1 < 2 ^ 63) :
    ∃ rest, ∀ outcome, SafeReadlink link outcome ↔
      outcome = .ok ⟨toInt32 target.length, some (target ++ 0 :: rest)⟩ := by
  obtain ⟨rest, found⟩ := gives_target reads allocates sized representable
  exact ⟨rest, fun outcome =>
    (safeReadlink_iff_gives reads.lstat representable).trans found.iff_eq⟩

theorem not_returnsTarget (found : SafeReadlink link outcome)
    (differs : ∀ buf, outcome ≠ .ok ⟨target.length, buf⟩) : ¬ link.ReturnsTarget target := by
  rintro ⟨rest, outcomes⟩
  exact differs _ ((outcomes outcome).mp found)

/-- A length that an `int` cannot hold does not come back. -/
theorem not_returnsTarget_of_long (reads : link.Reads reported target)
    (allocates : link.Allocates reported) (sized : target.length < 2 ^ 63)
    (representable : reported + 1 < 2 ^ 63) (long : 2 ^ 31 ≤ target.length) :
    ¬ link.ReturnsTarget target := by
  obtain ⟨rest, outcomes⟩ := safeReadlink_target reads allocates sized representable
  have bounded : toInt32 target.length < 2 ^ 31 := by
    have below := Int.bmod_lt (x := target.length) (m := 2 ^ 32) (by decide)
    rw [toInt32]
    omega
  apply not_returnsTarget ((outcomes _).mpr rfl)
  intro buf same
  have length : toInt32 target.length = target.length := by
    simp only [Except.ok.injEq, ReadLink.mk.injEq] at same
    exact same.1
  omega

/-- The link has a target without a zero byte, and its calls succeed. -/
structure Link.LeadsTo (link : Link) (reported : Nat) (target : Bytes) : Prop where
  reads : link.Reads reported target
  allocates : link.Allocates reported
  short : target.length < 2 ^ 31
  representable : reported + 1 < 2 ^ 63
  clean : 0 ∉ target

/-- The caller of `safe_readlink` gets the target as its path. -/
theorem path_safeReadlink (leads : link.LeadsTo reported target) :
    ∃ read, SafeReadlink link (.ok read) ∧ read.path = some target := by
  have short := leads.short
  obtain ⟨rest, outcomes⟩ :=
    safeReadlink_target leads.reads leads.allocates (by omega) leads.representable
  have positive : toInt32 target.length ≠ -1 := by
    rw [toInt32_of_lt short]
    omega
  refine ⟨_, (outcomes _).mpr rfl, ?_⟩
  rw [ReadLink.path, if_neg positive, Option.bind_some, cString_terminated leads.clean]

/-- The event parser reads these links with `safe_readlink`. -/
def Kernel.Follows (kernel : Kernel) (links : (call : Nat) → (fd : Nat) → Link) : Prop :=
  ∀ call fd read, SafeReadlink (links call fd) (.ok read) → kernel.safeReadlink call fd = read.path

/-- Handles resolve to the targets of the links of their descriptors. -/
theorem resolves_of_follows {kernel : Kernel} {links : (call : Nat) → (fd : Nat) → Link}
    {directories : Directories} (follows : kernel.Follows links)
    (opens : ∀ call handleType handle dirpath, directories call handleType handle = some dirpath →
      ∃ fd reported, kernel.openByHandleAt call handleType handle = some fd ∧
        (links call fd).LeadsTo reported dirpath)
    (refuses : ∀ call handleType handle, directories call handleType handle = none →
      kernel.openByHandleAt call handleType handle = none) :
    kernel.Resolves directories := by
  intro call handleType handle
  cases found : directories call handleType handle with
  | none => exact refuses call handleType handle found
  | some dirpath =>
      obtain ⟨fd, reported, opened, leads⟩ := opens call handleType handle dirpath found
      obtain ⟨read, returned, path⟩ := path_safeReadlink leads
      exact ⟨fd, opened, (follows call fd read returned).trans path⟩

/-- The call returns the whole target whatever size was reported for it. -/
theorem safeReadlink_whole (reads : link.Reads reported target) (allocates : link.Allocates reported)
    (short : target.length < 2 ^ 31) (representable : reported + 1 < 2 ^ 63) :
    link.ReturnsTarget target := by
  obtain ⟨rest, outcomes⟩ := safeReadlink_target reads allocates (by omega) representable
  rw [toInt32_of_lt short] at outcomes
  exact ⟨rest, outcomes⟩

/-- The link has this target, and memory is never short. -/
def plainLink (reported : Nat) (target : Bytes) : Link where
  lstat := some reported
  malloc _ size := some ⟨List.replicate size 0, List.length_replicate⟩
  readlink _ size := some (target.take size)

theorem plainLink_reads (reported : Nat) (target : Bytes) :
    (plainLink reported target).Reads reported target :=
  ⟨rfl, fun _ _ => rfl⟩

theorem plainLink_allocates (reported : Nat) (target : Bytes) :
    (plainLink reported target).Allocates reported :=
  fun _ _ => rfl

/-- A link of `/proc` reports no size, and its buffer grows from one byte to four. -/
theorem procLink_whole : (plainLink 0 [slash, 0x61, 0x62]).ReturnsTarget [slash, 0x61, 0x62] :=
  safeReadlink_whole (plainLink_reads 0 [slash, 0x61, 0x62])
    (plainLink_allocates 0 [slash, 0x61, 0x62]) (by decide) (by decide)

def longTarget : Bytes := List.replicate (2 ^ 31) slash

/-- The link is read, but no memory is left. -/
def starvedLink : Link := { plainLink 1 [slash] with malloc := fun _ _ => none }

theorem starvedLink_reads : starvedLink.Reads 1 [slash] :=
  ⟨rfl, fun _ _ => rfl⟩

/-- The length 2^31 comes back negative, and the process ends without memory or at the largest size. -/
theorem safeReadlink_limits :
    ((plainLink (2 ^ 31) longTarget).Reads (2 ^ 31) longTarget ∧
      (plainLink (2 ^ 31) longTarget).Allocates (2 ^ 31) ∧
      ¬ (plainLink (2 ^ 31) longTarget).ReturnsTarget longTarget) ∧
    (starvedLink.Reads 1 [slash] ∧ ¬ starvedLink.ReturnsTarget [slash]) ∧
    ((plainLink (2 ^ 63 - 1) [slash]).Reads (2 ^ 63 - 1) [slash] ∧
      (plainLink (2 ^ 63 - 1) [slash]).Allocates (2 ^ 63 - 1) ∧
      ¬ (plainLink (2 ^ 63 - 1) [slash]).ReturnsTarget [slash]) := by
  refine ⟨⟨plainLink_reads _ _, plainLink_allocates _ _, ?negative⟩, ⟨starvedLink_reads, ?starved⟩,
    plainLink_reads _ _, plainLink_allocates _ _, ?overflow⟩
  case negative =>
    have length : longTarget.length = 2 ^ 31 := List.length_replicate
    exact not_returnsTarget_of_long (plainLink_reads (2 ^ 31) longTarget)
      (plainLink_allocates (2 ^ 31) longTarget) (by omega) (by decide) (by omega)
  case starved =>
    have stopped : SafeReadlink starvedLink (.error .assertion) :=
      (safeReadlink_iff_gives starvedLink_reads.lstat (by decide)).mpr (gives_of_stop rfl)
    exact not_returnsTarget stopped nofun
  case overflow =>
    have stopped : SafeReadlink (plainLink (2 ^ 63 - 1) [slash]) (.error .overflow) := rfl
    exact not_returnsTarget stopped nofun

end ClamavDbscan.Watcher
