import ClamavDbscan.Proof.Scanner.CacheSoundness

/-
This file compares the cached path of `scan_file` with a fresh scan.
-/

namespace ClamavDbscan

variable {κ : Type}

/-- A call goes on alone, and clamd answers it at once. -/
def Call.proceed (clamd : Clamd κ) (disk : Disk κ) (now : Str) :
    Nat → Call κ → Files → Call κ × Files
  | 0, call, files => (call, files)
  | rounds + 1, call, files =>
      match call.read clamd disk with
      | some next => proceed clamd disk now rounds next files
      | none =>
          match call.advance disk files now with
          | some (next, table) => proceed clamd disk now rounds next table
          | none => (call, files)

/-- This is `scan_file` at one moment, with both stats and the reply taken from the disk. -/
def scanFileNow (clamd : Clamd κ) (disk : Disk κ) (files : Files) (path : Str) (cacheOk : Bool)
    (now : Str) : Except PyException ClamAVDBFileMetadata × Files :=
  ClamAVDB.scanFile files path cacheOk ((disk path).map Entry.stat) ((disk path).map Entry.stat)
    (clamd path ((disk path).toOption.map Entry.node)) now

/-- A call that goes on alone computes the whole function in at most five steps. -/
theorem Call.proceed_scanFile (clamd : Clamd κ) (disk : Disk κ) (files : Files) (path now : Str)
    (cacheOk : Bool) :
    let alone := Call.proceed clamd disk now 5 ⟨path, cacheOk, .created, none, false⟩ files
    alone.1.phase = .finished (scanFileNow clamd disk files path cacheOk now).1 ∧
      alone.2 = (scanFileNow clamd disk files path cacheOk now).2 := by
  unfold scanFileNow ClamAVDB.scanFile
  cases found : disk path with
  | error raised =>
      simp [Call.proceed, Call.read, Call.advance, found, Except.map]
  | ok entry =>
      cases cached : ClamAVDB.cachedResult files path cacheOk entry.stat with
      | error raised =>
          simp [Call.proceed, Call.read, Call.advance, found, cached, Except.map]
      | ok hit =>
          cases hit with
          | some result =>
              simp [Call.proceed, Call.read, Call.advance, found, cached, Except.map]
          | none =>
              cases statted : ClambScanMgr.statForScan path none (.ok entry.stat) with
              | error raised =>
                  simp [Call.proceed, Call.read, Call.advance, found, cached, Except.map,
                    statted, ClambScanMgr.scan, Except.bind]
              | ok taken =>
                  obtain ⟨rfl, _⟩ := statForScan_none statted
                  cases encoded : ClambScanMgr.sendScan path with
                  | error raised =>
                      simp [Call.proceed, Call.read, Call.advance, found, cached, Except.map,
                        statted, encoded, ClambScanMgr.scan, Except.bind]
                  | ok sent =>
                      cases parsed : parseReply path entry.stat
                          (replyLines (clamd path (some entry.node))) now with
                      | error raised =>
                          simp [Call.proceed, Call.read, Call.advance, found, cached, Except.map,
                            statted, encoded, parsed, ClambScanMgr.scan, Except.bind, Except.toOption]
                      | ok result =>
                          simp [Call.proceed, Call.read, Call.advance, found, cached, Except.map,
                            statted, encoded, parsed, ClambScanMgr.scan, Except.bind, Except.toOption]

namespace Session

/-- At this moment the cached path returns the status of a fresh scan. -/
def FastPathAgrees (clamd : Clamd κ) (session : Session κ) : Prop :=
  ∀ path now, (scanFileNow clamd session.disk session.watch.files path true now).1.toOption.map
      (·.status) =
    (scanFileNow clamd session.disk session.watch.files path false now).1.toOption.map (·.status)

/-- No file changes between the first stat of a scan of it and the reply. -/
def QuietScans (session : Session κ) : Label κ → Prop
  | .change path _ => ∀ call ∈ session.calls, call.path = path → call.relies = false
  | _ => True

instance (session : Session κ) : (label : Label κ) → Decidable (QuietScans session label)
  | .change path _ => inferInstanceAs (Decidable (∀ call ∈ session.calls, call.path = path → _))
  | .watch _ | .begin _ _ | .advance _ _ | .read _ => isTrue trivial

/-- A call that has taken the stat of its scan still has the entry on the disk. -/
def Steady (session : Session κ) : Prop :=
  ∀ call ∈ session.calls, ∀ entry, call.phase = .statted entry ∨ call.phase = .sent entry →
    session.disk call.path = .ok entry

/-- A scan reads this status from the reply for the file. -/
def FreshStatus (clamd : Clamd κ) (path : Str) (node : Node κ) (status : Str) : Prop :=
  ∃ stat now result, parseReply path stat (replyLines (clamd path (some node))) now = .ok result ∧
    result.status = status

variable {clamd : Clamd κ} {identify : Str → Nat → Int → Node κ} {session after : Session κ}

theorem steady_step (steady : Steady session) {label : Label κ} (quiet : QuietScans session label)
    (stepped : step clamd session label = some after) : Steady after := by
  cases step_taken stepped with
  | watch label watch taken =>
      intro call member entry phase
      obtain ⟨before, inside, same⟩ := mem_noteRemoval member
      rw [noteRemoval_disk]
      cases same with
      | inl same =>
          subst same
          exact steady call inside entry phase
      | inr marked =>
          subst marked
          exact steady before inside entry phase
  | change path changed =>
      intro call member entry phase
      have other : call.path ≠ path := by
        intro same
        have idle := quiet call member same
        unfold Call.relies at idle
        cases phase with
        | inl statted => simp [statted] at idle
        | inr sent => simp [sent] at idle
      exact (Function.update_of_ne other _ _).trans (steady call member entry phase)
  | begin path cacheOk idle =>
      intro call member entry phase
      cases List.mem_append.mp member with
      | inl old => exact steady call old entry phase
      | inr new =>
          obtain rfl := List.mem_singleton.mp new
          simp at phase
  | advance number now call next files idle stored advanced =>
      intro other member entry phase
      cases List.mem_or_eq_of_mem_set member with
      | inl old => exact steady other old entry phase
      | inr new =>
          subst new
          cases advanced with
          | raised | hit | miss | store => simp at phase
          | stat taken looked found scannable =>
              simp only [CallPhase.statted.injEq, reduceCtorEq, or_false] at phase
              exact phase ▸ found
          | send taken statted =>
              simp only [CallPhase.sent.injEq, reduceCtorEq, false_or] at phase
              exact steady call (List.mem_of_getElem? stored) entry (.inl (phase ▸ statted))
  | read number call taken stored sent =>
      intro other member entry phase
      cases List.mem_or_eq_of_mem_set member with
      | inl old => exact steady other old entry phase
      | inr new =>
          subst new
          simp at phase

/-- On a steady disk clamd reads the file that the scan has looked at. -/
theorem Steady.readsTold (steady : Steady session) (label : Label κ) :
    ReadsTold (FreshStatus clamd) clamd session label := by
  cases label with
  | read number =>
      intro call stored entry sent stat now result parsed
      rw [steady call (List.mem_of_getElem? stored) entry (.inr sent)] at parsed
      exact ⟨stat, now, result, parsed, rfl⟩
  | watch | change | begin | advance => trivial

/-- The lookup raises only for a path that does not encode. -/
theorem cachedResult_error {files : Files} {path : Str} {stat : StatResult} {raised : PyException}
    (failed : ClamAVDB.cachedResult files path true stat = .error raised) :
    path.any isSurrogate = true := by
  by_contra encodes
  unfold ClamAVDB.cachedResult ClamAVDB.getItem at failed
  rw [if_pos rfl, if_neg encodes] at failed
  cases stored : files path <;> simp [stored] at failed

/-- A path that does not encode is never scanned. -/
theorem scan_surrogate {path : Str} (stat : StatResult) (reply now : Str)
    (surrogate : path.any isSurrogate = true) :
    ∃ raised, ClambScanMgr.scan path none (.ok stat) reply now = .error raised := by
  cases scanned : ClambScanMgr.scan path none (.ok stat) reply now with
  | error raised => exact ⟨raised, rfl⟩
  | ok result =>
      have encodes := (scan_ok scanned).1
      rw [surrogate] at encodes
      contradiction

/-- A file with a status lets the scan of an accepted file return it. -/
theorem scan_status {path status : Str} {node : Node κ} (stat : StatResult) (now : Str)
    (encodes : path.any isSurrogate = false) (scannable : stat.stMode.Scannable)
    (told : FreshStatus clamd path node status) :
    ∃ result, ClambScanMgr.scan path none (.ok stat) (clamd path (some node)) now = .ok result ∧
      result.path = path ∧ result.status = status := by
  obtain ⟨_, _, _, parsed, same⟩ := told
  obtain ⟨firstline, others, groups, read, lines, matched, first, third, rfl⟩ :=
    parseReply_ok parsed
  refine ⟨⟨path, toInt stat.stMtime, stat.stSize, false, read, now,
    joinLines (replyLines (clamd path (some node)))⟩, ?_, rfl, same⟩
  have accepted : stat.stMode = .regular ∨ stat.stMode = .link := scannable
  simp [ClambScanMgr.scan, ClambScanMgr.statForScan, ClambScanMgr.sendScan, accepted, encodes,
    Except.bind, lines, parseReply, matched, first, third]

/-- Trusted rows make the cached path agree with a fresh scan. -/
theorem Trusted.fastPathAgrees (trusted : Trusted (FreshStatus clamd) identify session)
    (identified : IdentifiedBySecond identify session.disk) : FastPathAgrees clamd session := by
  intro path now
  unfold scanFileNow ClamAVDB.scanFile
  cases found : session.disk path with
  | error raised => rfl
  | ok entry =>
      have fresh : ClamAVDB.cachedResult session.watch.files path false entry.stat = .ok none := rfl
      have present : (Except.ok entry : Except PyException (Entry κ)).toOption = some entry := rfl
      simp only [Except.map, fresh, present, Option.map_some]
      cases cached : ClamAVDB.cachedResult session.watch.files path true entry.stat with
      | error raised =>
          obtain ⟨unscanned, failed⟩ := scan_surrogate entry.stat
            (clamd path (some entry.node)) now (cachedResult_error cached)
          rw [failed]
          rfl
      | ok hit =>
          cases hit with
          | none => rfl
          | some result =>
              obtain ⟨encodes, row, stored, size, second, status⟩ := cachedResult_hit cached
              have known := trusted.rows path row stored
              unfold TrustedRow at known
              rw [size, second] at known
              have identity : entry.node = identify path entry.size (toInt entry.mtime) :=
                identified path entry found
              change (identify path entry.size (toInt entry.mtime)).mode.Scannable ∧
                FreshStatus clamd path (identify path entry.size (toInt entry.mtime))
                  row.status at known
              rw [← identity] at known
              obtain ⟨scanned, returned, named, same⟩ :=
                scan_status entry.stat now encodes known.1 known.2
              rw [returned]
              simp [ClamAVDB.storeResult, named, Except.toOption, status, same]

/-- With identified files and quiet scans the cached path agrees with a fresh scan. -/
theorem fast_path_agrees (clamd : Clamd κ) (identify : Str → Nat → Int → Node κ)
    {past : List (Session κ × Label κ)} {last : Session κ}
    (run : Transition.Run (system clamd) past last)
    (identified : Transition.Meets (fun session _ => IdentifiedBySecond identify session.disk) past)
    (lastIdentified : IdentifiedBySecond identify last.disk)
    (quiet : Transition.Meets QuietScans past) : FastPathAgrees clamd last := by
  have both := run.throughout _ (fun session => Steady session ∧ Trusted (FreshStatus clamd) identify session)
    (fun session begins => ⟨by simp [Steady, begins.2.2.1], trusted_start begins⟩)
    (fun session label after before allowed stepped =>
      ⟨steady_step before.1 allowed.2 stepped,
        trusted_step before.2 allowed.1 (before.1.readsTold label) stepped⟩)
    (identified.and quiet)
  exact both.1.2.fastPathAgrees lastIdentified

/-- The cached path agrees after a scanned file has been replaced. -/
theorem fast_path_agrees_replaced : ∃ past last, Transition.Run (system exampleClamd) past last ∧
    past.length = 7 ∧ FastPathAgrees exampleClamd last := by
  have begins : Transition.Run (system exampleClamd) [] (atStart (singleFile infected)) :=
    .start ⟨⟨rfl, rfl, rfl, rfl, rfl, rfl⟩, rfl, rfl, rfl⟩
  have run := begins.follow [.begin (text "/a") true, .advance 0 [], .advance 0 [], .advance 0 [],
    .read 0, .advance 0 [], .change (text "/a") (.ok clean)] rfl
  have original : IdentifiedBySecond bySize (singleFile infected) := singleFile_identified rfl
  have replaced := original.change (text "/a") clean rfl
  refine ⟨_, _, run, rfl, fast_path_agrees exampleClamd bySize run ?_ replaced (by decide +kernel)⟩
  repeat refine (Transition.meets_cons _ _ _).mpr ⟨original, ?_⟩
  exact Transition.meets_nil _

/-- Two files of one size are written within one second. -/
def early : Entry Bool := ⟨⟨.regular, true⟩, 68, 1⟩

def late : Entry Bool := ⟨⟨.regular, false⟩, 68, 3 / 2⟩

def byMtime : Str → Nat → ℚ → Node Bool := fun _ _ mtime => if mtime = 1 then early.node else late.node

/-- A file that is replaced within one second keeps the verdict of the earlier file. -/
theorem same_second_disagrees : ¬ ∀ (clamd : Clamd Bool) (identify : Str → Nat → ℚ → Node Bool)
    (past : List (Session Bool × Label Bool)) (last : Session Bool),
    Transition.Run (system clamd) past last →
    Transition.Meets (fun session _ => Identified identify session.disk) past →
    Identified identify last.disk → Transition.Meets QuietScans past →
      FastPathAgrees clamd last := by
  intro always
  have begins : Transition.Run (system exampleClamd) [] (atStart (singleFile early)) :=
    .start ⟨⟨rfl, rfl, rfl, rfl, rfl, rfl⟩, rfl, rfl, rfl⟩
  have run := begins.follow [.begin (text "/a") true, .advance 0 [], .advance 0 [], .advance 0 [],
    .read 0, .advance 0 [], .change (text "/a") (.ok late)] rfl
  have original : Identified byMtime (singleFile early) := singleFile_identified (by decide +kernel)
  have replaced := original.change (text "/a") late (by decide +kernel)
  have agrees := always exampleClamd byMtime _ _ run (by
    repeat refine (Transition.meets_cons _ _ _).mpr ⟨original, ?_⟩
    exact Transition.meets_nil _) replaced (by decide +kernel) (text "/a") []
  exact absurd agrees (by decide +kernel)

end Session

end ClamavDbscan
