import ClamavDbscan.Construction.Watcher.ParserLoads
import ClamavDbscan.Proof.Fanotify.Encoding

/-
This file proves that the loads of the C parser give its turns, and where they lie.
-/

namespace ClamavDbscan.Watcher

open Fanotify Iteration

variable {kernel : Kernel} {comparePath memory : Bytes} {outer : Outer} {metadata : Metadata}
  {infoFd : Nat} {fullPath : Option Bytes}

/-- Inside of an event the parser has a copy of its metadata. -/
def Copied (memory : Bytes) : Config → Prop
  | .event _ => True
  | .info outer metadata _ _ => readMetadata memory outer.metadataItor = some metadata

/-- A string is loaded up to its terminator or to the end of the memory. -/
theorem cString_eq_run {start room : Nat} (inside : start ≤ memory.length)
    (enough : memory.length < start + room) :
    cString (memory.drop start) = (Loads.string room start).run memory := by
  induction room generalizing start with
  | zero => omega
  | succ room ih =>
      rw [Loads.string, Loads.run_bind, Loads.run_nat]
      cases rest : memory.drop start with
      | nil =>
          have ends : memory.length ≤ start := List.drop_eq_nil_iff.mp rest
          have faults : Bytes.readNat memory start 1 = none := by
            rw [Bytes.readNat, Bytes.read, if_neg (by omega), Option.map_none]
          rw [faults]
          rfl
      | cons byte others =>
          have holds : Bytes.Holds memory start (byte :: others) := by
            refine ⟨memory.take start, [], ?_, List.length_take_of_le inside⟩
            rw [← rest, List.take_append_drop, List.append_nil]
          have within : start + 1 ≤ memory.length := Bytes.readNat_bound holds.readNat_one
          have tail : memory.drop (start + 1) = others := by
            rw [← List.drop_drop, rest]
            rfl
          rw [cString, holds.readNat_one, Option.bind_some]
          by_cases zero : byte = 0
          · rw [if_pos zero, if_pos (by rw [zero]; rfl)]
            rfl
          · have nonzero : byte.toNat ≠ 0 := fun same => zero (UInt8.toNat_inj.mp same)
            rw [if_neg zero, if_neg nonzero, ← tail, ih within (by omega), Loads.run_bind,
              UInt8.ofNat_toNat]
            cases (Loads.string room (start + 1)).run memory <;> rfl

theorem dfidNamePath_eq_run (memory : Bytes) (kernel : Kernel) (calls fileHandle : Nat) :
    dfidNamePath kernel memory calls fileHandle =
      ((dfidNamePathLoads kernel memory.length calls fileHandle).run memory).elim (.error .fault) .ok := by
  rw [dfidNamePath, dfidNamePathLoads, Loads.run_bind, Loads.run_nat]
  cases size : Bytes.readNat memory fileHandle 4 with
  | none => rfl
  | some handleBytes =>
      rw [Option.bind_some, Loads.run_bind, Loads.run_nat]
      cases Bytes.readNat memory (fileHandle + 4) 4 with
      | none => rfl
      | some handleType =>
          rw [Option.bind_some, Loads.run_bind, Loads.run_bytes]
          cases found : Bytes.read memory (fileHandle + fileHandleLen) handleBytes with
          | none =>
              simp only [found]
              rfl
          | some handle =>
              simp only [found, Option.bind_some]
              cases kernel.openByHandleAt calls handleType handle with
              | none => rfl
              | some fd =>
                  have inside := Bytes.read_isSome found
                  have enough : memory.length <
                      fileHandle + fileHandleLen + handleBytes + (memory.length + 1) := by omega
                  dsimp only
                  rw [Loads.run_bind, Loads.run_nat, size, Option.bind_some, Loads.run_bind,
                    cString_eq_run inside enough]
                  cases (Loads.string (memory.length + 1)
                    (fileHandle + fileHandleLen + handleBytes)).run memory <;> rfl

theorem finishEvent_eq_run (comparePath : Bytes) (outer : Outer) (fullPath : Option Bytes)
    (copied : readMetadata memory outer.metadataItor = some metadata) :
    .next (finishEvent comparePath outer metadata fullPath) =
      ((finishEventLoads comparePath outer metadata fullPath).run memory).getD (.stop (.error .fault)) := by
  rw [finishEventLoads, Loads.run_bind, Loads.run_nat, readMetadata_eventLen copied]
  rfl

theorem nextInfo_eq_run (memory : Bytes) (outer : Outer) (metadata : Metadata) (infoFd : Nat)
    (fullPath : Option Bytes) :
    nextInfo memory outer metadata infoFd fullPath =
      ((nextInfoLoads outer metadata infoFd fullPath).run memory).getD (.stop (.error .fault)) := by
  rw [nextInfo, nextInfoLoads, Loads.run_bind, Loads.run_nat]
  cases Bytes.readNat memory (infoFd + 2) 2 <;> rfl

/-- A turn of the parser is the result of its loads. -/
theorem turn_eq_run (kernel : Kernel) (comparePath : Bytes) {config : Config}
    (copied : Copied memory config) :
    turn kernel comparePath memory config =
      ((turnLoads kernel comparePath memory.length config).run memory).getD (.stop (.error .fault)) := by
  cases config with
  | event outer =>
      rw [turn, turnLoads, Loads.run_bind, run_loadMetadata]
      cases found : readMetadata memory outer.metadataItor with
      | none => rfl
      | some metadata =>
          dsimp only [Option.bind_some]
          split
          · split
            · rfl
            · split
              · rfl
              · rw [Loads.run_bind, run_loadMetadata, found]
                rfl
          · rfl
  | info outer metadata infoFd fullPath =>
      rw [turn, turnLoads]
      split
      · rw [Loads.run_bind, Loads.run_nat]
        cases Bytes.readNat memory infoFd 1 with
        | none => rfl
        | some infoType =>
            dsimp only [Option.bind_some]
            split
            · rw [dfidNamePath_eq_run, Loads.run_bind]
              cases (dfidNamePathLoads kernel memory.length outer.calls (infoFd + infoFidLen)).run
                memory with
              | none => rfl
              | some path =>
                  cases path with
                  | none => exact finishEvent_eq_run comparePath { outer with calls := outer.calls + 1 } none copied
                  | some path => exact nextInfo_eq_run memory _ metadata infoFd (some path)
            · exact nextInfo_eq_run memory outer metadata infoFd fullPath
      · exact finishEvent_eq_run comparePath outer fullPath copied

theorem copied_of_nextInfo {after : Config}
    (turned : nextInfo memory outer metadata infoFd fullPath = .next after)
    (copied : readMetadata memory outer.metadataItor = some metadata) : Copied memory after := by
  unfold nextInfo at turned
  split at turned
  · cases turned
  · obtain rfl := Turn.next.inj turned
    exact copied

/-- A turn inside of an event keeps the copy, and one at an event makes it. -/
theorem Copied.of_turn {config after : Config} (copied : Copied memory config)
    (turned : turn kernel comparePath memory config = .next after) : Copied memory after := by
  cases config with
  | event outer =>
      rw [turn] at turned
      split at turned
      · cases turned
      · rename_i metadata found
        split at turned
        · split at turned
          · cases turned
          · split at turned
            · cases turned
            · obtain rfl := Turn.next.inj turned
              exact found
        · cases turned
  | info outer metadata infoFd fullPath =>
      rw [turn] at turned
      split at turned
      · split at turned
        · cases turned
        · split at turned
          · split at turned
            · cases turned
            · obtain rfl := Turn.next.inj turned
              trivial
            · exact copied_of_nextInfo turned copied
          · exact copied_of_nextInfo turned copied
      · obtain rfl := Turn.next.inj turned
        trivial

/-- In a run every turn is the result of its loads. -/
theorem turn_eq_run_of_passes {config : Config}
    (passed : Passes (turn kernel comparePath memory) (.event outer) config) :
    turn kernel comparePath memory config =
      ((turnLoads kernel comparePath memory.length config).run memory).getD (.stop (.error .fault)) := by
  apply turn_eq_run
  induction passed with
  | refl => trivial
  | tail _ turned ih => exact ih.of_turn turned

/-- The turn loads below this offset only. -/
def LoadsBelow (kernel : Kernel) (comparePath memory : Bytes) (high : Nat) (config : Config) : Prop :=
  ∀ region ∈ (turnLoads kernel comparePath memory.length config).regions memory, region.Within 0 high

section Bounds

variable {high : Nat}

theorem finishEventLoads_stays (comparePath : Bytes) (outer : Outer) (metadata : Metadata)
    (fullPath : Option Bytes) (room : outer.metadataItor + eventMetadataLen ≤ high)
    (mapped : high ≤ memory.length) :
    Loads.Stays memory 0 high (finishEventLoads comparePath outer metadata fullPath) fun _ => True := by
  have field : outer.metadataItor + 4 ≤ high := Nat.le_trans (Nat.add_le_add_left (by decide) _) room
  exact .bind (.nat (Nat.zero_le _) field mapped) fun _ _ _ => .give trivial

theorem nextInfoLoads_stays (outer : Outer) (metadata : Metadata) (fullPath : Option Bytes)
    (room : infoFd + infoHeaderLen ≤ high) (mapped : high ≤ memory.length) :
    Loads.Stays memory 0 high (nextInfoLoads outer metadata infoFd fullPath) fun _ => True :=
  .bind (.nat (Nat.zero_le _) room mapped) fun _ _ _ => .give trivial

theorem loadsBelow_event (kernel : Kernel) (comparePath : Bytes) (outer : Outer)
    (room : outer.metadataItor + eventMetadataLen ≤ high) (mapped : high ≤ memory.length) :
    LoadsBelow kernel comparePath memory high (.event outer) := by
  have stays : Loads.Stays memory 0 high (turnLoads kernel comparePath memory.length (.event outer))
      fun _ => True := by
    refine .bind (loadMetadata_stays (Nat.zero_le _) room mapped) fun metadata _ _ => ?_
    split
    · split
      · exact .give trivial
      · split
        · exact .give trivial
        · exact .bind (loadMetadata_stays (Nat.zero_le _) room mapped) fun _ _ _ => .give trivial
    · exact .give trivial
  exact stays.1

/-- Behind its last record an event is finished with its length. -/
theorem loadsBelow_behind (kernel : Kernel) (comparePath : Bytes) (fullPath : Option Bytes)
    (behind : outer.metadataItor + metadata.eventLen ≤ infoFd)
    (room : outer.metadataItor + eventMetadataLen ≤ high) (mapped : high ≤ memory.length) :
    LoadsBelow kernel comparePath memory high (.info outer metadata infoFd fullPath) := by
  rw [LoadsBelow, turnLoads, if_neg (Nat.not_lt.mpr behind)]
  exact (finishEventLoads_stays comparePath outer metadata fullPath room mapped).1

theorem loadsBelow_fid {record : FidRecord} (kernel : Kernel) (comparePath : Bytes)
    (fullPath : Option Bytes) (holds : Bytes.Holds memory infoFd record.encode)
    (inside : infoFd < outer.metadataItor + metadata.eventLen) (room : infoFd + record.size ≤ high)
    (mapped : high ≤ memory.length) :
    LoadsBelow kernel comparePath memory high (.info outer metadata infoFd fullPath) := by
  have header : 4 < record.size := record.header_lt_size
  have four : infoHeaderLen = 4 := rfl
  have typed := readNat_infoType holds.left (by decide)
  have stays : Loads.Stays memory 0 high
      (turnLoads kernel comparePath memory.length (.info outer metadata infoFd fullPath))
      fun _ => True := by
    rw [turnLoads, if_pos inside]
    refine .bind (.nat (Nat.zero_le _) (by omega) mapped) fun infoType _ found => ?_
    obtain rfl := Option.some.inj (typed.symm.trans found)
    rw [if_neg (by decide)]
    exact nextInfoLoads_stays outer metadata fullPath (Nat.le_trans (by omega) room) mapped
  exact stays.1

/-- A directory record is loaded up to the terminator of its name. -/
theorem dfidNamePathLoads_stays {record : DfidNameRecord} {fileHandle : Nat} (kernel : Kernel)
    (calls : Nat) (holds : Bytes.Holds memory fileHandle
      (encodeHandle record.handleType record.handle ++ (record.name ++ 0 :: record.padding)))
    (room : fileHandle + (fileHandleLen + record.handle.length) + record.name.length < high)
    (mapped : high ≤ memory.length) :
    Loads.Stays memory 0 high (dfidNamePathLoads kernel memory.length calls fileHandle)
      fun _ => True := by
  obtain ⟨size, _, _⟩ := read_handle holds.left record.handle_lt
  have name := holds.right
  rw [length_encodeHandle] at name
  have eight : fileHandleLen = 8 := rfl
  refine .bind (.nat (Nat.zero_le _) (by omega) mapped) fun handleBytes _ found => ?_
  obtain rfl := Option.some.inj (size.symm.trans found)
  refine .bind (.nat (Nat.zero_le _) (by omega) mapped) fun handleType _ _ => ?_
  refine .bind (.bytes (Nat.zero_le _) (by omega) mapped) fun handle _ _ => ?_
  split
  · exact .give trivial
  · refine .bind (.nat (Nat.zero_le _) (by omega) mapped) fun handleBytes _ found => ?_
    obtain rfl := Option.some.inj (size.symm.trans found)
    rw [Nat.add_assoc fileHandle]
    exact .bind (.string_terminated name record.terminated (by omega) (Nat.zero_le _) room mapped)
      fun _ _ _ => .give trivial

theorem loadsBelow_dfidName {record : DfidNameRecord} (kernel : Kernel) (comparePath : Bytes)
    (fullPath : Option Bytes) (holds : Bytes.Holds memory infoFd record.encode)
    (inside : infoFd < outer.metadataItor + metadata.eventLen)
    (start : outer.metadataItor + eventMetadataLen ≤ infoFd) (room : infoFd + record.size ≤ high)
    (mapped : high ≤ memory.length) :
    LoadsBelow kernel comparePath memory high (.info outer metadata infoFd fullPath) := by
  have header : 4 < record.size := record.header_lt_size
  have four : infoHeaderLen = 4 := rfl
  have typed := readNat_infoType holds.left (by decide)
  have handle := holds.right.right
  rw [length_encodeHeader, Bytes.length_ofNat] at handle
  have spelled : infoFd + infoFidLen + (fileHandleLen + record.handle.length) + record.name.length <
      high := by
    refine Nat.lt_of_lt_of_le ?_ room
    simp only [DfidNameRecord.size]
    omega
  have stays : Loads.Stays memory 0 high
      (turnLoads kernel comparePath memory.length (.info outer metadata infoFd fullPath))
      fun _ => True := by
    rw [turnLoads, if_pos inside]
    refine .bind (.nat (Nat.zero_le _) (by omega) mapped) fun infoType _ found => ?_
    obtain rfl := Option.some.inj (typed.symm.trans found)
    rw [if_pos rfl]
    refine .bind (dfidNamePathLoads_stays kernel outer.calls handle spelled mapped) fun path _ _ => ?_
    cases path with
    | none => exact finishEventLoads_stays comparePath _ metadata none (by dsimp only; omega) mapped
    | some path => exact nextInfoLoads_stays _ metadata (some path) (Nat.le_trans (by omega) room) mapped
  exact stays.1

end Bounds

end ClamavDbscan.Watcher
