import ClamavDbscan.Proof.Main.Accounting
import ClamavDbscan.Proof.Scanner.FastPath

/-
This file follows the calls of `scan_file` on a disk that does not change.
-/

namespace ClamavDbscan

open Session

variable {κ : Type}

/-- This is what a call returns or raises if its table is empty and nothing interrupts it. -/
def freshScan (clamd : Clamd κ) (disk : Disk κ) (path : Str) : Outcome :=
  (scanFileNow clamd disk (fun _ => none) path true []).1

/-- The same exception is raised, or the same status is told of the same file. -/
def SameVerdict : Outcome → Outcome → Prop
  | .error first, .error second => first = second
  | .ok first, .ok second => first.path = second.path ∧ first.status = second.status ∧
      first.filesize = second.filesize ∧ first.mtimeEpoch = second.mtimeEpoch
  | _, _ => False

/-- The row of the path tells what a fresh scan returns. -/
def Current (clamd : Clamd κ) (disk : Disk κ) (files : Files) (path : Str) : Prop :=
  ∃ row result, files path = some row ∧ freshScan clamd disk path = .ok result ∧
    row.status = result.status ∧ row.filesize = result.filesize ∧ row.mtimeEpoch = result.mtimeEpoch

/-- Each row that a lookup would accept is current. -/
def TrueTable (clamd : Clamd κ) (disk : Disk κ) (files : Files) : Prop :=
  ∀ path row entry, files path = some row → disk path = .ok entry → row.filesize = entry.size →
    row.mtimeEpoch = toInt entry.mtime → path.any isSurrogate = false → Current clamd disk files path

/-- The time of a scan does not decide what its reply means. -/
theorem parseReply_now (path : Str) (stat : StatResult) (lines : List Str) (now : Str) :
    parseReply path stat lines now =
      (parseReply path stat lines []).map fun result => { result with scannedAt := now } := by
  unfold parseReply
  cases lines with
  | nil => rfl
  | cons firstline others =>
      dsimp only
      cases scanResultsRe.matchStart firstline with
      | none => rfl
      | some groups =>
          dsimp only
          cases groups 1 with
          | none => rfl
          | some filename =>
              cases groups 3 with
              | none => rfl
              | some status =>
                  dsimp only
                  split <;> rfl

section Fresh

variable {clamd : Clamd κ} {disk : Disk κ} {path : Str} {entry : Entry κ}

theorem freshScan_missing {raised : PyException} (missing : disk path = .error raised) :
    freshScan clamd disk path = .error raised := by
  simp [freshScan, scanFileNow, missing, ClamAVDB.scanFile, Except.map]

theorem freshScan_surrogate (found : disk path = .ok entry) (surrogate : path.any isSurrogate = true) :
    freshScan clamd disk path = .error ⟨.unicodeEncodeError, path⟩ := by
  simp [freshScan, scanFileNow, found, ClamAVDB.scanFile, Except.map, ClamAVDB.cachedResult,
    ClamAVDB.getItem, surrogate]

/-- A path that encodes is scanned, since the table is empty. -/
theorem freshScan_encodes (found : disk path = .ok entry) (encodes : path.any isSurrogate = false) :
    freshScan clamd disk path = (ClambScanMgr.statForScan path none (.ok entry.stat)).bind fun taken =>
      parseReply path taken (replyLines (clamd path (some entry.node))) [] := by
  simp only [freshScan, scanFileNow, found, ClamAVDB.scanFile, Except.map, ClamAVDB.cachedResult,
    ClamAVDB.getItem, encodes, Except.toOption, Option.map_some, ClambScanMgr.scan,
    ClambScanMgr.sendScan, Bool.false_eq_true, if_false, if_true]
  cases ClambScanMgr.statForScan path none (.ok entry.stat) with
  | error raised => rfl
  | ok taken =>
      simp only [Except.bind]
      cases parsed : parseReply path taken (replyLines (clamd path (some entry.node))) [] with
      | error raised => rfl
      | ok result => exact congrArg Prod.fst (storeResult_parsed parsed)

theorem statForScan_accepts (path : Str) (scannable : entry.node.mode.Scannable) :
    ClambScanMgr.statForScan path none (.ok entry.stat) = .ok entry.stat := if_pos scannable

/-- A fresh result comes from the reply for the entry on the disk. -/
theorem freshScan_ok {result : ClamAVDBFileMetadata} (fresh : freshScan clamd disk path = .ok result) :
    ∃ entry, disk path = .ok entry ∧ path.any isSurrogate = false ∧ entry.node.mode.Scannable ∧
      result.path = path ∧ result.filesize = entry.size ∧ result.mtimeEpoch = toInt entry.mtime := by
  cases found : disk path with
  | error raised =>
      rw [freshScan_missing found] at fresh
      cases fresh
  | ok entry =>
      cases surrogate : path.any isSurrogate with
      | true =>
          rw [freshScan_surrogate found surrogate] at fresh
          cases fresh
      | false =>
          rw [freshScan_encodes found surrogate] at fresh
          cases accepted : ClambScanMgr.statForScan path none (.ok entry.stat) with
          | error raised =>
              rw [accepted] at fresh
              cases fresh
          | ok taken =>
              rw [accepted] at fresh
              obtain ⟨rfl, scannable⟩ := statForScan_none accepted
              obtain ⟨_, _, _, _, _, _, _, _, rfl⟩ := parseReply_ok fresh
              exact ⟨entry, rfl, rfl, scannable, rfl, rfl, rfl⟩

end Fresh

/-- The call knows the file that is on the disk, and it ends like a fresh scan. -/
def OnTrack (clamd : Clamd κ) (disk : Disk κ) (files : Files) (call : Call κ) : Prop :=
  match call.phase with
  | .created => call.cacheOk = true
  | .looked => ∃ entry, disk call.path = .ok entry ∧ call.path.any isSurrogate = false
  | .statted entry | .sent entry => disk call.path = .ok entry ∧
      call.path.any isSurrogate = false ∧ entry.node.mode.Scannable
  | .replied entry reply => disk call.path = .ok entry ∧ call.path.any isSurrogate = false ∧
      entry.node.mode.Scannable ∧ reply = clamd call.path (some entry.node)
  | .finished outcome => SameVerdict outcome (freshScan clamd disk call.path) ∧
      ∀ result, outcome = .ok result → Current clamd disk files call.path

section OnTrack

variable {clamd : Clamd κ} {disk : Disk κ} {files after : Files} {call next : Call κ} {now : Str}

theorem OnTrack.raises {raised : PyException}
    (fresh : freshScan clamd disk call.path = .error raised) :
    OnTrack clamd disk files { call with phase := .finished (.error raised) } := by
  refine ⟨?_, fun _ same => by cases same⟩
  change SameVerdict _ (freshScan clamd disk call.path)
  rw [fresh]
  rfl

/-- A finished call depends on the table only at its own path. -/
theorem OnTrack.mono (track : OnTrack clamd disk files call)
    (kept : ∀ path, Current clamd disk files path → Current clamd disk after path) :
    OnTrack clamd disk after call := by
  cases phase : call.phase with
  | finished outcome =>
      rw [OnTrack, phase] at track ⊢
      exact ⟨track.1, fun result same => kept _ (track.2 result same)⟩
  | created | looked | statted | sent | replied =>
      rw [OnTrack, phase] at track ⊢
      exact track

/-- The lookup raises what a fresh scan raises, finds what it tells, or goes on. -/
def LooksUp (clamd : Clamd κ) (disk : Disk κ) (files : Files) (path : Str) :
    Except PyException (Option ClamAVDBFileMetadata) → Prop
  | .error raised => freshScan clamd disk path = .error raised
  | .ok (some cached) => SameVerdict (.ok cached) (freshScan clamd disk path) ∧
      Current clamd disk files path
  | .ok none => path.any isSurrogate = false

theorem looksUp {path : Str} {entry : Entry κ} (table : TrueTable clamd disk files)
    (found : disk path = .ok entry) :
    LooksUp clamd disk files path (ClamAVDB.cachedResult files path true entry.stat) := by
  cases surrogate : path.any isSurrogate with
  | true =>
      have refused : ClamAVDB.cachedResult files path true entry.stat =
          .error ⟨.unicodeEncodeError, path⟩ := by
        simp [ClamAVDB.cachedResult, ClamAVDB.getItem, surrogate]
      rw [refused]
      exact freshScan_surrogate found surrogate
  | false =>
      cases looked : ClamAVDB.cachedResult files path true entry.stat with
      | error raised => exact absurd (cachedResult_error looked) (by simp [surrogate])
      | ok hit =>
          cases hit with
          | none => exact surrogate
          | some cached =>
              cases stored : files path with
              | none =>
                  simp [ClamAVDB.cachedResult, ClamAVDB.getItem, surrogate, stored] at looked
              | some row =>
                  simp only [ClamAVDB.cachedResult, ClamAVDB.getItem, surrogate, stored, if_true,
                    Bool.false_eq_true, if_false, Except.ok.injEq] at looked
                  obtain ⟨agrees, same⟩ := Option.ite_none_right_eq_some.mp looked
                  obtain rfl := Option.some.inj same
                  obtain ⟨size, second⟩ := Bool.and_eq_true_iff.mp agrees
                  have current := table path row entry stored found (beq_iff_eq.mp size).symm
                    (beq_iff_eq.mp second).symm surrogate
                  refine ⟨?_, current⟩
                  obtain ⟨held, result, again, fresh, tells⟩ := current
                  obtain rfl := Option.some.inj (stored.symm.trans again)
                  obtain ⟨_, _, _, _, named, _⟩ := freshScan_ok fresh
                  rw [fresh]
                  exact ⟨named.symm, tells⟩

/-- What a step leaves behind is on track, and it changes the table only for a current row. -/
structure KeepsTrack (clamd : Clamd κ) (disk : Disk κ) (files after : Files) (call next : Call κ) :
    Prop where
  track : OnTrack clamd disk after next
  path : next.path = call.path
  table : ∀ path, after path = files path ∨ path = call.path ∧ Current clamd disk after path

theorem KeepsTrack.same (track : OnTrack clamd disk files next) (path : next.path = call.path) :
    KeepsTrack clamd disk files files call next :=
  ⟨track, path, fun _ => .inl rfl⟩

/-- A step of a call on a quiet disk keeps the call and the table on track. -/
theorem onTrack_advance (table : TrueTable clamd disk files) (track : OnTrack clamd disk files call)
    (advanced : call.advance disk files now = some (next, after)) :
    KeepsTrack clamd disk files after call next := by
  cases phase : call.phase with
  | created =>
      rw [OnTrack, phase] at track
      simp only [Call.advance, phase, show call.cacheOk = true from track] at advanced
      cases found : disk call.path with
      | error raised =>
          simp only [found, Option.some.injEq, Prod.mk.injEq] at advanced
          obtain ⟨rfl, rfl⟩ := advanced
          exact .same (OnTrack.raises (freshScan_missing found)) rfl
      | ok entry =>
          have looks := looksUp table found
          simp only [found] at advanced
          cases looked : ClamAVDB.cachedResult files call.path true entry.stat with
          | error raised =>
              rw [looked] at looks
              simp only [looked, Option.some.injEq, Prod.mk.injEq] at advanced
              obtain ⟨rfl, rfl⟩ := advanced
              let seen : Call κ := { call with seen := some entry }
              exact .same (OnTrack.raises looks : OnTrack clamd disk files { seen with phase := _ }) rfl
          | ok hit =>
              cases hit with
              | some result =>
                  rw [looked] at looks
                  simp only [looked, Option.some.injEq, Prod.mk.injEq] at advanced
                  obtain ⟨rfl, rfl⟩ := advanced
                  exact .same ⟨looks.1, fun _ _ => looks.2⟩ rfl
              | none =>
                  rw [looked] at looks
                  simp only [looked, Option.some.injEq, Prod.mk.injEq] at advanced
                  obtain ⟨rfl, rfl⟩ := advanced
                  exact .same ⟨entry, found, looks⟩ rfl
  | looked =>
      rw [OnTrack, phase] at track
      obtain ⟨entry, found, encodes⟩ := track
      have fresh : freshScan clamd disk call.path = _ := freshScan_encodes found encodes
      simp only [Call.advance, phase, found] at advanced
      cases accepted : ClambScanMgr.statForScan call.path none (.ok entry.stat) with
      | error raised =>
          rw [accepted] at fresh
          simp only [accepted, Option.some.injEq, Prod.mk.injEq] at advanced
          obtain ⟨rfl, rfl⟩ := advanced
          exact .same (OnTrack.raises fresh) rfl
      | ok taken =>
          simp only [accepted, Option.some.injEq, Prod.mk.injEq] at advanced
          obtain ⟨rfl, rfl⟩ := advanced
          exact .same ⟨found, encodes, (statForScan_none accepted).2⟩ rfl
  | statted entry =>
      rw [OnTrack, phase] at track
      obtain ⟨found, encodes, scannable⟩ := track
      simp only [Call.advance, phase, ClambScanMgr.sendScan, encodes, Bool.false_eq_true, if_false,
        Option.some.injEq, Prod.mk.injEq] at advanced
      obtain ⟨rfl, rfl⟩ := advanced
      exact .same ⟨found, encodes, scannable⟩ rfl
  | sent entry => simp [Call.advance, phase] at advanced
  | replied entry reply =>
      rw [OnTrack, phase] at track
      obtain ⟨found, encodes, scannable, rfl⟩ := track
      have fresh : freshScan clamd disk call.path = _ := freshScan_encodes found encodes
      rw [statForScan_accepts call.path scannable] at fresh
      change freshScan clamd disk call.path =
        parseReply call.path entry.stat (replyLines (clamd call.path (some entry.node))) [] at fresh
      simp only [Call.advance, phase] at advanced
      rw [parseReply_now] at advanced
      cases parsed : parseReply call.path entry.stat
          (replyLines (clamd call.path (some entry.node))) [] with
      | error raised =>
          simp only [parsed, Except.map, Option.some.injEq, Prod.mk.injEq] at advanced
          obtain ⟨rfl, rfl⟩ := advanced
          exact .same (OnTrack.raises (fresh.trans parsed)) rfl
      | ok result =>
          rw [parsed] at fresh
          obtain ⟨_, _, _, _, named, _⟩ := freshScan_ok fresh
          simp only [parsed, Except.map, ClamAVDB.storeResult, named, if_true, Option.some.injEq,
            Prod.mk.injEq] at advanced
          obtain ⟨rfl, rfl⟩ := advanced
          let stored : ClamAVDBFileMetadata := { result with path := call.path, scannedAt := now }
          have current : Current clamd disk (ClamAVDB.insertOrReplace files stored) call.path :=
            ⟨_, result, Function.update_self _ _ _, fresh, rfl, rfl, rfl⟩
          refine ⟨⟨?_, fun _ _ => current⟩, rfl, ?_⟩
          · change SameVerdict _ (freshScan clamd disk call.path)
            rw [fresh]
            exact ⟨named.symm, rfl, rfl, rfl⟩
          · intro path
            by_cases same : path = call.path
            · subst same
              exact .inr ⟨rfl, current⟩
            · exact .inl (Function.update_of_ne same _ _)
  | finished outcome => simp [Call.advance, phase] at advanced

theorem KeepsTrack.current (keeps : KeepsTrack clamd disk files after call next) {path : Str}
    (current : Current clamd disk files path) : Current clamd disk after path := by
  rcases keeps.table path with same | ⟨_, again⟩
  · obtain ⟨row, result, stored, tells⟩ := current
    exact ⟨row, result, same.trans stored, tells⟩
  · exact again

theorem KeepsTrack.trueTable (keeps : KeepsTrack clamd disk files after call next)
    (table : TrueTable clamd disk files) : TrueTable clamd disk after := by
  intro path row entry stored found size second encodes
  rcases keeps.table path with same | ⟨_, again⟩
  · exact keeps.current (table path row entry (same.symm.trans stored) found size second encodes)
  · exact again

/-- The reply is that for the file on the disk. -/
theorem onTrack_read (track : OnTrack clamd disk files call) (replied : call.read clamd disk = some next) :
    OnTrack clamd disk files next ∧ next.path = call.path := by
  unfold Call.read at replied
  split at replied
  · rename_i entry sent
    obtain rfl := Option.some.inj replied
    rw [OnTrack, sent] at track
    obtain ⟨found, encodes, scannable⟩ := track
    refine ⟨⟨found, encodes, scannable, ?_⟩, rfl⟩
    rw [found]
    rfl
  · contradiction

end OnTrack

namespace Session

/-- All calls are on track, and only current rows have been added to the table. -/
structure Tracked (clamd : Clamd κ) (disk : Disk κ) (files : Files) (session : Session κ) : Prop where
  idle : session.watch.inbox = []
  quiet : session.disk = disk
  table : TrueTable clamd disk session.watch.files
  calls : ∀ call ∈ session.calls, OnTrack clamd disk session.watch.files call
  added : ∀ path, session.watch.files path = files path ∨
    Current clamd disk session.watch.files path ∧ path ∈ session.calls.map Call.path

variable {clamd : Clamd κ} {disk : Disk κ} {files : Files} {session after : Session κ}

theorem Tracked.append (tracked : Tracked clamd disk files session) (q : FinishableQueue Str)
    {calls : List (Call κ)} (fresh : ∀ call ∈ calls, call.phase = .created ∧ call.cacheOk = true) :
    Tracked clamd disk files
      { session with watch := { session.watch with q := q }, calls := session.calls ++ calls } where
  idle := tracked.idle
  quiet := tracked.quiet
  table := tracked.table
  calls call member := by
    rcases List.mem_append.mp member with old | new
    · exact tracked.calls call old
    · rw [OnTrack, (fresh call new).1]
      exact (fresh call new).2
  added path := (tracked.added path).imp_right fun both =>
    ⟨both.1, by rw [List.map_append]; exact List.mem_append_left _ both.2⟩

/-- A step of a call keeps a session on track. -/
theorem Tracked.advance (tracked : Tracked clamd disk files session) {number : Nat} {now : Str}
    (stepped : step clamd session (.advance number now) = some after) :
    Tracked clamd disk files after := by
  obtain ⟨_, moved⟩ := Option.ite_none_right_eq_some.mp stepped
  obtain ⟨call, stored, moved⟩ := Option.bind_eq_some_iff.mp moved
  obtain ⟨⟨next, table⟩, advanced, rfl⟩ := Option.map_eq_some_iff.mp moved
  have member := List.mem_of_getElem? stored
  rw [tracked.quiet] at advanced
  have keeps := onTrack_advance tracked.table (tracked.calls call member) advanced
  have paths : (session.calls.set number next).map Call.path = session.calls.map Call.path := by
    rw [List.map_set, keeps.path]
    exact Transition.replace_same (by rw [List.getElem?_map, stored]; rfl)
  refine ⟨tracked.idle, tracked.quiet, keeps.trueTable tracked.table, ?_, ?_⟩
  · intro other listed
    rcases List.mem_or_eq_of_mem_set listed with old | rfl
    · exact (tracked.calls other old).mono fun _ => keeps.current
    · exact keeps.track
  · intro path
    rw [paths]
    rcases keeps.table path with same | ⟨rfl, current⟩
    · exact (tracked.added path).imp same.trans fun both => ⟨keeps.current both.1, both.2⟩
    · exact .inr ⟨current, List.mem_map_of_mem member⟩

/-- A reply of clamd keeps a session on track. -/
theorem Tracked.read (tracked : Tracked clamd disk files session) {number : Nat}
    (stepped : step clamd session (.read number) = some after) : Tracked clamd disk files after := by
  obtain ⟨call, stored, moved⟩ := Option.bind_eq_some_iff.mp stepped
  obtain ⟨next, replied, rfl⟩ := Option.map_eq_some_iff.mp moved
  have member := List.mem_of_getElem? stored
  rw [tracked.quiet] at replied
  obtain ⟨track, path⟩ := onTrack_read (tracked.calls call member) replied
  have paths : (session.calls.set number next).map Call.path = session.calls.map Call.path := by
    rw [List.map_set, path]
    exact Transition.replace_same (by rw [List.getElem?_map, stored]; rfl)
  refine ⟨tracked.idle, tracked.quiet, tracked.table, ?_, ?_⟩
  · intro other listed
    rcases List.mem_or_eq_of_mem_set listed with old | rfl
    · exact tracked.calls other old
    · exact track
  · intro other
    rw [paths]
    exact tracked.added other

end Session

end ClamavDbscan
