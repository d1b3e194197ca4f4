import ClamavDbscan.Construction.FSWatcher.ParserLoads
import ClamavDbscan.Proof.FSWatcher.BufferLayout

/-
This file proves that the loads of the Go parser give its turns, and where they lie.
-/

namespace ClamavDbscan.FSWatcher

open Fanotify Iteration

section Erasure

variable (memory : Bytes)

@[simp] theorem run_fanEventOkLoads (metadataItor : Nat) (n : Int) :
    (fanEventOkLoads metadataItor n).run memory = fanEventOk memory metadataItor n := by
  unfold fanEventOkLoads fanEventOk
  split
  · rfl
  · rw [Loads.run_bind, Loads.run_nat]
    cases Bytes.readNat memory metadataItor 4 <;> rfl

theorem newFileHandle_eq_run (handle length : Nat) :
    newFileHandle memory handle length =
      ((newFileHandleLoads handle length).run memory).elim (.error .fault) .ok := by
  unfold newFileHandleLoads newFileHandle
  split
  · rfl
  · rw [Loads.run_bind, Loads.run_nat]
    cases Bytes.readNat memory handle 4 with
    | none => rfl
    | some handleBytes =>
        dsimp only [Option.bind_some]
        split
        · rfl
        · simp only [Loads.run_bind, Loads.run_nat, Loads.run_bytes]
          cases Bytes.readNat memory (handle + 4) 4 with
          | none => rfl
          | some handleType =>
              cases Bytes.read memory (handle + fileHandleLen) handleBytes <;> rfl

theorem scanName_eq_run (start length : Nat) :
    scanName memory start length = (Loads.string length start).run memory := by
  induction length generalizing start with
  | zero => rfl
  | succ length ih =>
      rw [scanName, Loads.string, Loads.run_bind, Loads.run_nat]
      cases Bytes.readNat memory start 1 with
      | none => rfl
      | some byte =>
          cases byte with
          | zero => rfl
          | succ byte =>
              dsimp only [Option.bind_some]
              rw [if_neg (Nat.succ_ne_zero byte), Loads.run_bind, ih]
              cases (Loads.string length (start + 1)).run memory <;> rfl

/-- A record of this type is parsed by its loads. -/
theorem parseDfidName_eq_run {data : Nat} (typed : Bytes.readNat memory data 1 = some infoTypeDfidName)
    (kernel : Kernel) (calls length : Nat) :
    parseDfidName kernel memory calls data length =
      ((parseDfidNameLoads kernel calls data length).run memory).getD (.error .fault) := by
  unfold parseDfidNameLoads parseDfidName
  split
  · rfl
  · rw [Loads.run_bind, Loads.run_nat, typed, Option.bind_some, if_neg (not_not.mpr rfl),
      Loads.run_bind, newFileHandle_eq_run]
    cases (newFileHandleLoads (data + infoFidLen) (length - infoFidLen)).run memory with
    | none => rfl
    | some parsed =>
        cases parsed with
        | none => rfl
        | some handle =>
            simp only [Option.elim_some, Option.bind_some, Loads.run_bind, scanName_eq_run]
            cases (Loads.string handle.remainingLen handle.remaining).run memory with
            | none => rfl
            | some filename =>
                dsimp only [Option.bind_some]
                split
                · rfl
                · cases kernel.openByHandleAt calls handle.handleType handle.data with
                  | error errno =>
                      dsimp only
                      split <;> rfl
                  | ok fd =>
                      dsimp only
                      cases kernel.readlink calls fd <;> rfl

theorem processEventInfo_eq_run (kernel : Kernel) (calls infoItor : Nat) (left : Int) :
    processEventInfo kernel memory calls infoItor left =
      ((processEventInfoLoads kernel calls infoItor left).run memory).getD (.error .fault) := by
  unfold processEventInfoLoads processEventInfo
  split
  · rfl
  · rw [Loads.run_bind, parseInfoLoads, Loads.run_bind, Loads.run_nat]
    cases typed : Bytes.readNat memory infoItor 1 with
    | none => rfl
    | some infoType =>
        dsimp only [Option.bind_some]
        by_cases dfid : infoType = infoTypeDfidName
        · subst dfid
          simp only [if_true, Loads.run_bind, Loads.run_nat]
          cases sized : Bytes.readNat memory (infoItor + 2) 2 with
          | none => rfl
          | some length =>
              dsimp only [Option.bind_some]
              rw [if_pos rfl, parseDfidName_eq_run memory typed]
              cases (parseDfidNameLoads kernel calls infoItor length).run memory with
              | none => rfl
              | some parsed =>
                  cases parsed with
                  | error failure => rfl
                  | ok parsed =>
                      simp only [Option.getD_some, Option.bind_some, Loads.run_bind, Loads.run_nat, sized]
                      rfl
        · simp only [if_neg dfid, Loads.run_bind, Loads.run_pure, Option.bind_some, Loads.run_nat]
          cases Bytes.readNat memory (infoItor + 2) 2 with
          | none => rfl
          | some length =>
              dsimp only
              rw [if_neg dfid]
              rfl

/-- A turn of the parser is the result of its loads. -/
theorem turn_eq_run (filter : Filter) (kernel : Kernel) (config : Config) :
    turn filter kernel memory config =
      ((turnLoads filter kernel config).run memory).getD (.stop (.error .fault)) := by
  cases config with
  | event outer =>
      rw [turnLoads, Loads.run_bind, run_fanEventOkLoads, turn]
      cases fanEventOk memory outer.metadataItor outer.n with
      | none => rfl
      | some accepted =>
          cases accepted with
          | false => rfl
          | true =>
              simp only [Option.bind_some, if_true, Loads.run_bind, run_loadMetadata]
              cases readMetadata memory outer.metadataItor <;> rfl
  | info outer metadata infoItor left parsed =>
      rw [turnLoads, Loads.run_bind, turn, processEventInfo_eq_run]
      cases (processEventInfoLoads kernel outer.calls infoItor left).run memory with
      | none => rfl
      | some result => cases result <;> rfl

end Erasure

/-- Every directory is gone. -/
def Stale (kernel : Kernel) : Prop :=
  ∀ call handleType handle, kernel.openByHandleAt call handleType handle = .error estale

theorem Stale.result {kernel : Kernel} {calls handleType : Nat} {handle : Bytes}
    {result : Except Nat Nat} (stale : Stale kernel)
    (opened : kernel.openByHandleAt calls handleType handle = result) : result = .error estale :=
  opened.symm.trans (stale calls handleType handle)

/-- What a record gives has a name only if the record has one. -/
structure NameOf (kernel : Kernel) (memory : Bytes) (record length : Nat) (parsed : ParsedName) :
    Prop where
  named : parsed.filename ≠ [] → hasName memory record length = true
  stale : Stale kernel → parsed.dirpath = none ∧
    (hasName memory record length = true → parsed.filename ≠ [])

theorem NameOf.none {kernel : Kernel} {memory : Bytes} {record length : Nat}
    (nameless : hasName memory record length = false) :
    NameOf kernel memory record length .none :=
  ⟨fun named => absurd rfl named, fun _ => ⟨rfl, fun named => absurd (nameless.symm.trans named) (by decide)⟩⟩

theorem NameOf.of_fresh {kernel : Kernel} {memory : Bytes} {record length : Nat} {parsed : ParsedName}
    (fresh : ¬ Stale kernel) (named : parsed.filename ≠ [] → hasName memory record length = true) :
    NameOf kernel memory record length parsed :=
  ⟨named, fun stale => absurd stale fresh⟩

/-- A directory record without a byte behind its handle panics, and any other one is parsed. -/
inductive ParsedAs (kernel : Kernel) (memory : Bytes) (record length : Nat) :
    Except Failure (ParsedName × Nat) → Prop where
  | full : nameOffset memory record length = some length →
      ParsedAs kernel memory record length (.error .indexOutOfRange)
  | parsed {name : ParsedName} {after : Nat} : nameOffset memory record length ≠ some length →
      NameOf kernel memory record length name → ParsedAs kernel memory record length (.ok (name, after))

/-- A record without a place for a name gives none. -/
theorem ParsedAs.none {kernel : Kernel} {memory : Bytes} {record length calls : Nat}
    (absent : nameOffset memory record length = Option.none) :
    ParsedAs kernel memory record length (.ok (.none, calls)) :=
  .parsed (by simp [absent]) (.none (hasName_of_none absent))

section Bounds

variable {memory : Bytes} {kernel : Kernel} {calls : Nat}

theorem newFileHandleLoads_stays {handle length : Nat} (inside : handle + length ≤ memory.length) :
    Loads.Stays memory handle (handle + length) (newFileHandleLoads handle length) fun parsed =>
      (parsed.map fun found => (found.remaining, found.remainingLen)) =
        (handleEnd memory handle length).map fun stop => (handle + stop, length - stop) := by
  unfold newFileHandleLoads handleEnd
  split
  · rename_i short
    exact .give (by rw [if_neg (Nat.not_le.mpr short)]; rfl)
  · rename_i long
    have enough : fileHandleLen ≤ length := Nat.not_lt.mp long
    have eight : 8 ≤ length := enough
    refine .bind (.nat (Nat.le_refl _) (by omega) inside) fun handleBytes _ found => ?_
    rw [if_pos enough, found, Option.bind_some]
    split
    · rename_i longer
      exact .give (by rw [if_neg (Nat.not_le.mpr longer)]; rfl)
    · rename_i fits
      have within : fileHandleLen + handleBytes ≤ length := Nat.not_lt.mp fits
      refine .bind (.nat (Nat.le_add_right _ _) (by omega) inside) fun handleType _ _ => ?_
      refine .bind (.bytes (Nat.le_add_right _ _) (by omega) inside) fun data _ _ => ?_
      rw [if_pos within]
      exact .give (by simp only [Option.map_some, Nat.add_assoc])

/-- A directory record is parsed inside of itself. -/
theorem parseDfidNameLoads_stays {data length : Nat} (inside : data + length ≤ memory.length)
    (typed : Bytes.readNat memory data 1 = some infoTypeDfidName) :
    Loads.Stays memory data (data + length) (parseDfidNameLoads kernel calls data length)
      (ParsedAs kernel memory data length) := by
  unfold parseDfidNameLoads
  split
  · rename_i short
    exact .give (.none (if_neg fun both => Nat.not_le.mpr short both.2))
  · rename_i long
    have enough : infoFidLen ≤ length := Nat.not_lt.mp long
    have twelve : 12 ≤ length := enough
    have offset : nameOffset memory data length =
        (handleEnd memory (data + infoFidLen) (length - infoFidLen)).map (infoFidLen + ·) :=
      if_pos ⟨typed, enough⟩
    refine .bind (.nat (Nat.le_refl _) (by omega) inside) fun infoType _ found => ?_
    obtain rfl := Option.some.inj (typed.symm.trans found)
    rw [if_neg (not_not.mpr rfl)]
    have slice : data + infoFidLen + (length - infoFidLen) = data + length := by omega
    refine .bind ((newFileHandleLoads_stays (by rw [slice]; exact inside)).mono
      (Nat.le_add_right _ _) (Nat.le_of_eq slice) fun _ same => same) fun parsed _ same => ?_
    cases parsed with
    | none =>
        refine .give (.none ?_)
        rw [offset, Option.map_eq_none_iff]
        exact Option.map_eq_none_iff.mp same.symm
    | some handle =>
        obtain ⟨stop, ends, same⟩ := Option.map_eq_some_iff.mp same.symm
        obtain ⟨rest, room⟩ := Prod.mk.inj same
        have behind : nameOffset memory data length = some (infoFidLen + stop) := by
          rw [offset, ends, Option.map_some]
        have bound : stop ≤ length - infoFidLen := handleEnd_le ends
        refine .bind (.string (by omega) (by omega) inside) fun filename _ empty => ?_
        split
        · rename_i full
          exact .give (.full (by rw [behind, Option.some.injEq]; omega))
        · rename_i more
          have left : nameOffset memory data length ≠ some length := by
            rw [behind, ne_eq, Option.some.injEq]
            omega
          have place : data + (infoFidLen + stop) = handle.remaining := by omega
          have remains : infoFidLen + stop < length ↔ ¬ handle.remainingLen = 0 := by omega
          have named : hasName memory data length = true ↔ filename ≠ [] := by
            rw [hasName_iff behind, place, ne_eq, ne_eq, empty, not_or, remains]
          cases opened : kernel.openByHandleAt calls handle.handleType handle.data with
          | error errno =>
              dsimp only
              split
              · exact .give (.parsed left ⟨named.mpr, fun _ => ⟨rfl, named.mp⟩⟩)
              · rename_i other
                have fresh : ¬ Stale kernel := fun stale =>
                  other (.inl (Except.error.inj (stale.result opened)))
                exact .give (.parsed left (.of_fresh fresh fun absent => absurd rfl absent))
          | ok fd =>
              have fresh : ¬ Stale kernel := by
                intro stale
                cases stale.result opened
              dsimp only
              cases kernel.readlink calls fd with
              | error errno => exact .give (.parsed left (.of_fresh fresh fun absent => absurd rfl absent))
              | ok link => exact .give (.parsed left (.of_fresh fresh named.mpr))

/-- A record that ends inside of its event leaves the rest of the event. -/
inductive Processes (kernel : Kernel) (memory : Bytes) (infoItor left length : Nat) :
    Except Failure ProcessedInfo → Prop where
  | full : nameOffset memory infoItor length = some length →
      Processes kernel memory infoItor left length (.error .indexOutOfRange)
  | record {parsed : ParsedName} {after : Nat} : nameOffset memory infoItor length ≠ some length →
      NameOf kernel memory infoItor length parsed →
      Processes kernel memory infoItor left length (.ok ⟨parsed,
        if infoHeaderLen + length < left then some (infoItor + length) else none,
        (left - length : Nat), after⟩)

theorem parseInfoLoads_stays {infoItor left length : Nat} (inside : infoItor + left ≤ memory.length)
    (header : infoHeaderLen < left) (sized : Bytes.readNat memory (infoItor + 2) 2 = some length)
    (fits : length ≤ left) :
    Loads.Stays memory infoItor (infoItor + left) (parseInfoLoads kernel calls infoItor)
      (ParsedAs kernel memory infoItor length) := by
  have four : 4 < left := header
  refine .bind (.nat (Nat.le_refl _) (by omega) inside) fun infoType _ typed => ?_
  split
  · rename_i dfid
    subst dfid
    refine .bind (.nat (by omega) (by omega) inside) fun found _ again => ?_
    obtain rfl := Option.some.inj (sized.symm.trans again)
    exact (parseDfidNameLoads_stays (by omega) typed).mono (Nat.le_refl _) (by omega)
      fun _ holds => holds
  · rename_i other
    refine .give (.none (if_neg fun both => other ?_))
    exact Option.some.inj (typed.symm.trans both.1)

/-- A record that ends inside of its event is processed inside of the rest of the event. -/
theorem processEventInfoLoads_stays {infoItor left length : Nat}
    (inside : infoItor + left ≤ memory.length) (header : infoHeaderLen < left) (small : left < 2 ^ 64)
    (sized : Bytes.readNat memory (infoItor + 2) 2 = some length) (fits : length ≤ left) :
    Loads.Stays memory infoItor (infoItor + left) (processEventInfoLoads kernel calls infoItor left)
      (Processes kernel memory infoItor left length) := by
  have four : 4 < left := header
  have nonzero : (left : Int) ≠ 0 := by omega
  unfold processEventInfoLoads
  rw [if_neg nonzero]
  refine .bind (parseInfoLoads_stays inside header sized fits) fun result _ parses => ?_
  cases parses with
  | full full => exact .give (.full full)
  | parsed more name =>
      refine .bind (.nat (by omega) (by omega) inside) fun found _ again => ?_
      obtain rfl := Option.some.inj (sized.symm.trans again)
      have rest : (left : Int) - length = (left - length : Nat) := (Int.ofNat_sub fits).symm
      have same : infoHeaderLen < left - length ↔ infoHeaderLen + length < left := by omega
      dsimp only
      rw [rest, asUintptr_natCast (by omega)]
      simp only [same]
      exact .give (.record more name)

end Bounds

section Results

variable {memory : Bytes} {kernel : Kernel} {calls : Nat} {failure : Failure}

/-- The index of the first byte behind the handle is the only one that is not checked. -/
theorem parseDfidNameLoads_error {data length : Nat}
    (given : (parseDfidNameLoads kernel calls data length).run memory = some (.error failure)) :
    failure = .indexOutOfRange := by
  unfold parseDfidNameLoads at given
  split at given
  · cases given
  · rw [Loads.run_bind, Option.bind_eq_some_iff] at given
    obtain ⟨infoType, _, given⟩ := given
    split at given
    · cases given
    · rw [Loads.run_bind, Option.bind_eq_some_iff] at given
      obtain ⟨parsed, _, given⟩ := given
      cases parsed with
      | none => cases given
      | some handle =>
          rw [Loads.run_bind, Option.bind_eq_some_iff] at given
          obtain ⟨filename, _, given⟩ := given
          split at given
          · cases given
            rfl
          · split at given
            · split at given <;> cases given
            · split at given <;> cases given

theorem processEventInfoLoads_error {infoItor : Nat} {bufferSize : Int}
    (given : (processEventInfoLoads kernel calls infoItor bufferSize).run memory = some (.error failure)) :
    failure = .indexOutOfRange := by
  unfold processEventInfoLoads at given
  split at given
  · cases given
  · rw [Loads.run_bind, Option.bind_eq_some_iff] at given
    obtain ⟨result, parsed, given⟩ := given
    cases result with
    | error other =>
        obtain rfl : other = failure := Except.error.inj (Option.some.inj given)
        rw [parseInfoLoads, Loads.run_bind, Option.bind_eq_some_iff] at parsed
        obtain ⟨infoType, _, parsed⟩ := parsed
        split at parsed
        · rw [Loads.run_bind, Option.bind_eq_some_iff] at parsed
          obtain ⟨length, _, parsed⟩ := parsed
          exact parseDfidNameLoads_error parsed
        · cases parsed
    | ok result =>
        rw [Loads.run_bind, Option.bind_eq_some_iff] at given
        obtain ⟨length, _, given⟩ := given
        cases given

/-- A record takes its own length from the rest of its event. -/
theorem processEventInfoLoads_left {infoItor length : Nat} {bufferSize : Int} {record : ProcessedInfo}
    (given : (processEventInfoLoads kernel calls infoItor bufferSize).run memory = some (.ok record))
    (more : bufferSize ≠ 0) (sized : Bytes.readNat memory (infoItor + 2) 2 = some length) :
    record.remainingBufferSize = bufferSize - length := by
  rw [processEventInfoLoads, if_neg more, Loads.run_bind, Option.bind_eq_some_iff] at given
  obtain ⟨result, _, given⟩ := given
  cases result with
  | error failure => cases given
  | ok result =>
      rw [Loads.run_bind, Loads.run_nat, sized, Option.bind_some] at given
      cases given
      rfl

end Results

end ClamavDbscan.FSWatcher
