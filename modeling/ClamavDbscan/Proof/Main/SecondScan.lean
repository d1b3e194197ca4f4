import ClamavDbscan.Proof.Main.WholeScan

/-
This file proves that a second scan of the same files does not ask clamd.
-/

namespace ClamavDbscan

open Transition

variable {κ : Type} {clamd : Clamd κ} {disk : Disk κ} {files after : Files} {call next : Call κ}

/-- A reply that cannot be read raises an exception without a record. -/
theorem parseReply_unhandled {path now : Str} {stat : StatResult} {lines : List Str} {raised : PyException}
    (parsed : parseReply path stat lines now = .error raised) : ¬ Handled (.error raised) := by
  unfold parseReply at parsed
  cases lines with
  | nil =>
      obtain rfl := Except.error.inj parsed
      exact Bool.false_ne_true
  | cons firstline others =>
      dsimp only at parsed
      split at parsed
      · obtain rfl := Except.error.inj parsed
        exact Bool.false_ne_true
      · split at parsed
        · split at parsed
          · contradiction
          · obtain rfl := Except.error.inj parsed
            exact Bool.false_ne_true
        · obtain rfl := Except.error.inj parsed
          exact Bool.false_ne_true

/-- The table answers this call, or the call ends before it asks clamd. -/
def Answered (clamd : Clamd κ) (disk : Disk κ) (call : Call κ) : Prop :=
  match call.phase with
  | .created => True
  | .looked => ∃ raised, freshScan clamd disk call.path = .error raised
  | .statted _ | .sent _ | .replied _ _ => False
  | .finished outcome => ∀ result, outcome = .ok result → result.pulledFromCache = true

/-- The row of each file that has a verdict is current. -/
def Known (clamd : Clamd κ) (disk : Disk κ) (files : Files) (path : Str) : Prop :=
  ∀ result, freshScan clamd disk path = .ok result → Current clamd disk files path

/-- A current row answers the lookup. -/
theorem Current.hit {path : Str} {entry : Entry κ} (current : Current clamd disk files path)
    (found : disk path = .ok entry) :
    ∃ cached, ClamAVDB.cachedResult files path true entry.stat = .ok (some cached) ∧
      cached.pulledFromCache = true := by
  obtain ⟨row, result, stored, fresh, _, size, second⟩ := current
  obtain ⟨taken, again, encodes, _, _, filesize, mtimeEpoch⟩ := freshScan_ok fresh
  obtain rfl := Except.ok.inj (found.symm.trans again)
  refine ⟨⟨path, row.mtimeEpoch, row.filesize, true, row.status, row.scannedAt, row.scanResults⟩, ?_, rfl⟩
  have same : ClamAVDB.cacheAgrees entry.stat ⟨path, row.mtimeEpoch, row.filesize, true, row.status,
      row.scannedAt, row.scanResults⟩ = true := by
    rw [ClamAVDB.cacheAgrees, size, second, filesize, mtimeEpoch]
    simp [Entry.stat]
  simp [ClamAVDB.cachedResult, ClamAVDB.getItem, encodes, stored, same]

/-- A lookup that finds a row takes its record from the table. -/
theorem cachedResult_pulled {path : Str} {stat : StatResult} {cached : ClamAVDBFileMetadata}
    (hit : ClamAVDB.cachedResult files path true stat = .ok (some cached)) : cached.pulledFromCache = true := by
  obtain ⟨_, _, _, _, rfl⟩ := Session.cachedResult_row hit
  rfl

theorem Answered.raised {raised : PyException} (ended : call.phase = .finished (.error raised)) :
    Answered clamd disk call := by
  rw [Answered, ended]
  intro result same
  cases same

/-- A step of a call for a known file leaves the table as it is. -/
theorem answered_advance {now : Str} (known : Known clamd disk files call.path)
    (handled : Handled (freshScan clamd disk call.path)) (track : OnTrack clamd disk files call)
    (answered : Answered clamd disk call) (advanced : call.advance disk files now = some (next, after)) :
    Answered clamd disk next ∧ after = files := by
  cases phase : call.phase with
  | created =>
      rw [OnTrack, phase] at track
      simp only [Call.advance, phase, show call.cacheOk = true from track] at advanced
      cases found : disk call.path with
      | error raised =>
          simp only [found, Option.some.injEq, Prod.mk.injEq] at advanced
          obtain ⟨rfl, rfl⟩ := advanced
          exact ⟨Answered.raised rfl, rfl⟩
      | ok entry =>
          simp only [found] at advanced
          cases looked : ClamAVDB.cachedResult files call.path true entry.stat with
          | error raised =>
              simp only [looked, Option.some.injEq, Prod.mk.injEq] at advanced
              obtain ⟨rfl, rfl⟩ := advanced
              exact ⟨Answered.raised rfl, rfl⟩
          | ok hit =>
              cases hit with
              | some cached =>
                  simp only [looked, Option.some.injEq, Prod.mk.injEq] at advanced
                  obtain ⟨rfl, rfl⟩ := advanced
                  refine ⟨?_, rfl⟩
                  intro result same
                  obtain rfl := Except.ok.inj same
                  exact cachedResult_pulled looked
              | none =>
                  simp only [looked, Option.some.injEq, Prod.mk.injEq] at advanced
                  obtain ⟨rfl, rfl⟩ := advanced
                  refine ⟨?_, rfl⟩
                  cases fresh : freshScan clamd disk call.path with
                  | error raised => exact ⟨raised, fresh⟩
                  | ok result =>
                      obtain ⟨cached, hit, _⟩ := (known result fresh).hit found
                      cases looked.symm.trans hit
  | looked =>
      rw [OnTrack, phase] at track
      rw [Answered, phase] at answered
      obtain ⟨entry, found, encodes⟩ := track
      obtain ⟨raised, fresh⟩ := answered
      simp only [Call.advance, phase, found] at advanced
      cases accepted : ClambScanMgr.statForScan call.path none (.ok entry.stat) with
      | error refused =>
          simp only [accepted, Option.some.injEq, Prod.mk.injEq] at advanced
          obtain ⟨rfl, rfl⟩ := advanced
          exact ⟨Answered.raised rfl, rfl⟩
      | ok taken =>
          have scans : freshScan clamd disk call.path = _ := freshScan_encodes found encodes
          rw [accepted, fresh] at scans
          rw [fresh] at handled
          exact absurd handled (parseReply_unhandled scans.symm)
  | statted | sent | replied =>
      rw [Answered, phase] at answered
      exact answered.elim
  | finished outcome => simp [Call.advance, phase] at advanced

/-- A call that the table answers has sent nothing to clamd. -/
theorem Answered.read (answered : Answered clamd disk call) (other : Disk κ) :
    call.read clamd other = none := by
  unfold Call.read
  cases phase : call.phase with
  | sent entry =>
      rw [Answered, phase] at answered
      exact answered.elim
  | created | looked | statted | replied | finished => rfl

namespace Program

variable {config other : ProgramConfig} {past later : List (Program κ × Label κ)}
  {program first second last : Program κ} {label : Label κ}

/-- The table answers every call, and it stays as it is. -/
structure Silent (clamd : Clamd κ) (disk : Disk κ) (files : Files) (program : Program κ) : Prop where
  calls : ∀ call ∈ program.session.calls, Answered clamd disk call
  table : program.session.watch.files = files

theorem silent_setLoop {loop : ScanLoop} (silent : Silent clamd disk files program) :
    Silent clamd disk files (program.setLoop loop) := by
  refine ⟨?_, silent.table⟩
  intro call member
  rcases List.mem_append.mp member with old | new
  · exact silent.calls call old
  · obtain ⟨task, _, rfl⟩ := List.mem_map.mp new
    trivial

/-- A step of a call that the table answers. -/
theorem silent_advance {session : Session κ} {number : Nat} {now : Str}
    (tracked : program.session.Tracked clamd disk files)
    (known : ∀ call ∈ program.session.calls, Known clamd disk files call.path ∧
      Handled (freshScan clamd disk call.path)) (silent : Silent clamd disk files program)
    (stepped : Session.step clamd program.session (.advance number now) = some session) :
    (∀ call ∈ session.calls, Answered clamd disk call) ∧ session.watch.files = files := by
  obtain ⟨_, moved⟩ := Option.ite_none_right_eq_some.mp stepped
  obtain ⟨call, stored, moved⟩ := Option.bind_eq_some_iff.mp moved
  obtain ⟨⟨next, table⟩, advanced, rfl⟩ := Option.map_eq_some_iff.mp moved
  have member := List.mem_of_getElem? stored
  have track := tracked.calls call member
  rw [tracked.quiet, silent.table] at advanced
  rw [silent.table] at track
  obtain ⟨answered, same⟩ := answered_advance (known call member).1 (known call member).2 track
    (silent.calls call member) advanced
  refine ⟨?_, same⟩
  intro other listed
  rcases List.mem_or_eq_of_mem_set listed with old | rfl
  · exact silent.calls other old
  · exact answered

/-- Nothing asks clamd in a step. -/
theorem silent_step (notWatching : config.watch = false)
    (tracked : program.session.Tracked clamd disk files)
    (known : ∀ call ∈ program.session.calls, Known clamd disk files call.path ∧
      Handled (freshScan clamd disk call.path)) (silent : Silent clamd disk files program)
    (undisturbed : Undisturbed program label) (stepped : step config clamd program label = some last) :
    Silent clamd disk files last := by
  cases step_taken stepped with
  | gather paths left => exact ⟨silent.calls, silent.table⟩
  | scanFiles =>
      have begun : Silent clamd disk files { program with stage := .scanning } := ⟨silent.calls, silent.table⟩
      exact silent_setLoop begun
  | watch label session watching => rw [notWatching] at watching; contradiction
  | change path entry session => exact undisturbed.elim
  | goOn number now session taken =>
      obtain ⟨calls, table⟩ := silent_advance tracked known silent taken
      exact ⟨calls, table⟩
  | finish number now session outcome loop taken =>
      obtain ⟨calls, table⟩ := silent_advance tracked known silent taken
      exact ⟨calls, table⟩
  | read number session taken =>
      obtain ⟨call, stored, moved⟩ := Option.bind_eq_some_iff.mp taken
      rw [(silent.calls call (List.mem_of_getElem? stored)).read] at moved
      cases moved
  | stepReady number loop => exact silent_setLoop silent
  | resume completed loop => exact silent_setLoop silent

/-- A scan of known files never asks clamd. -/
theorem silent_run (notWatching : config.watch = false) (run : Run (system config clamd files) past last)
    (undisturbed : Meets Undisturbed past) (table : TrueTable clamd last.session.disk files)
    (scannable : AllScannable config clamd last.session.disk)
    (known : ∀ path ∈ config.directories.flatten, Known clamd last.session.disk files path) :
    Throughout (Silent clamd last.session.disk files) past last := by
  induction run with
  | start begins =>
      obtain ⟨_, _, same, calls, _⟩ := begins
      exact ⟨⟨fun call member => by rw [calls] at member; contradiction, same⟩, by simp⟩
  | @next past state after label earlier stepped ih =>
      rw [meets_cons] at undisturbed
      have same := disk_step undisturbed.1 stepped
      rw [same] at table scannable known ⊢
      have before := ih undisturbed.2 table scannable known
      have tracked := tracked_run notWatching earlier undisturbed.2 table
      rw [throughout_cons]
      refine ⟨silent_step notWatching tracked ?_ before.1 undisturbed.1 stepped, before⟩
      intro call member
      have gathered := gathered_path notWatching earlier member
      exact ⟨known _ gathered, scannable _ gathered⟩

/-- The second scan asks clamd nothing, shows its verdicts from the table, and leaves the table as it is.
It is complete like the first one when it returns, and it can go on until then while the clock advances. -/
structure SecondScan (other : ProgramConfig) (clamd : Clamd κ) (files : Files)
    (later : List (Program κ × Label κ)) (second : Program κ) : Prop where
  unasked : ∀ taken ∈ later, ∀ number, taken.2 ≠ .read number
  cached : ∀ call ∈ second.session.calls, ∀ result, call.phase = .finished (.ok result) →
    result.pulledFromCache = true
  table : second.session.watch.files = files
  scan : WholeScan other clamd files later second
  goesOn : Meets ClockAdvances later → second.loop.control = .returned ∨
    ∃ label after, step other clamd second label = some after ∧ Undisturbed second label ∧
      ClockAdvances second label

/-- A scan of files that a complete scan has seen takes every verdict from the table, in every order of
its steps and with every number of scans at a time, if the files are the same. -/
theorem second_scan (positive : 1 ≤ config.maxScans) (notWatching : config.watch = false)
    (firstRun : Run (system config clamd files) past first) (undisturbed : Meets Undisturbed past)
    (table : TrueTable clamd first.session.disk files)
    (returned : first.loop.control = .returned) (again : 1 ≤ other.maxScans)
    (notWatchingAgain : other.watch = false)
    (among : ∀ path ∈ other.directories.flatten, path ∈ config.directories.flatten)
    (secondRun : Run (system other clamd first.session.watch.files) later second)
    (same : second.session.disk = first.session.disk) (undisturbedAgain : Meets Undisturbed later) :
    SecondScan other clamd first.session.watch.files later second := by
  obtain ⟨_, upToDate, scannable⟩ := returned_complete positive notWatching firstRun undisturbed table returned
  have trueTable := (tracked_run notWatching firstRun undisturbed table).table
  rw [← same] at trueTable
  have handled : AllScannable other clamd second.session.disk := by
    intro path member
    rw [same]
    exact scannable path (among path member)
  have known : ∀ path ∈ other.directories.flatten,
      Known clamd second.session.disk first.session.watch.files path := by
    intro path member
    rw [same]
    exact upToDate.1 path (among path member)
  have silent := silent_run notWatchingAgain secondRun undisturbedAgain trueTable handled known
  have whole := whole_scan again notWatchingAgain secondRun undisturbedAgain trueTable
  refine ⟨?_, ?_, silent.1.table, whole, whole.goesOn handled⟩
  · rintro ⟨state, label⟩ member number rfl
    obtain ⟨after, stepped, _⟩ := secondRun.after_step silent _ member
    change step other clamd state (.read number) = some after at stepped
    cases step_taken stepped with
    | read number session taken =>
        obtain ⟨call, stored, moved⟩ := Option.bind_eq_some_iff.mp taken
        rw [((silent.2 _ member).calls call (List.mem_of_getElem? stored)).read] at moved
        cases moved
  · intro call member result finished
    have answered := silent.1.calls call member
    rw [Answered, finished] at answered
    exact answered result rfl

/-- The first scan leaves the row of the infected file. -/
def exampleTable : Files :=
  ClamAVDB.insertOrReplace (fun _ => none)
    ⟨text "/a", 1, 68, false, text "FOUND", [], text "/a: Eicar FOUND"⟩

theorem exampleFirst_ends : ∃ (past : List (Program Bool × Label Bool)) (first : Program Bool),
    Run (system ⟨1, false, [[text "/a"]]⟩ Session.exampleClamd fun _ => none) past first ∧
      Meets Undisturbed past ∧ first.loop.control = .returned ∧
      first.session.disk = Session.singleFile Session.infected ∧ first.session.watch.files = exampleTable := by
  have run := (exampleStart_run 1 false [[text "/a"]]).follow [.gather, .scanFiles, .advance 0 [],
    .advance 0 [], .advance 0 [], .read 0, .advance 0 [], .resume [(.scan 0, 1)]] rfl
  refine ⟨_, _, run, ?_, rfl, rfl, rfl⟩
  repeat refine (meets_cons _ _ _).mpr ⟨by decide +kernel, ?_⟩
  exact meets_nil _

/-- The second program starts with the table that the first one has left. -/
def exampleAgain : Program Bool :=
  ⟨.gathering [[], [text "/a"]],
    { Session.atStart (Session.singleFile Session.infected) with
      watch := { OnDemand.atStart with files := exampleTable } }, beforeLoop⟩

theorem exampleSecond_ends : ∃ (later : List (Program Bool × Label Bool)) (second : Program Bool),
    Run (system ⟨2, false, [[], [text "/a"]]⟩ Session.exampleClamd exampleTable) later second ∧
      Meets Undisturbed later ∧ second.loop.control = .returned ∧
      second.session.disk = Session.singleFile Session.infected ∧ second.session.calls.length = 1 := by
  have begins : Run (system ⟨2, false, [[], [text "/a"]]⟩ Session.exampleClamd exampleTable) [] exampleAgain :=
    .start ⟨rfl, ⟨rfl, rfl, rfl, rfl, rfl, rfl⟩, rfl, rfl, rfl, rfl⟩
  have run := begins.follow [.gather, .gather, .scanFiles, .advance 0 [], .resume [(.scan 0, 1)]] rfl
  refine ⟨_, _, run, ?_, rfl, rfl, rfl⟩
  repeat refine (meets_cons _ _ _).mpr ⟨by decide +kernel, ?_⟩
  exact meets_nil _

/-- An infected file is scanned twice, and the second time it is found in the table. -/
theorem second_scan_infected : ∃ (first second : Program Bool) (later : List (Program Bool × Label Bool)),
    second.loop.control = .returned ∧ second.session.calls.length = 1 ∧
      SecondScan ⟨2, false, [[], [text "/a"]]⟩ Session.exampleClamd first.session.watch.files later second := by
  obtain ⟨past, first, firstRun, undisturbed, returned, disk, table⟩ := exampleFirst_ends
  obtain ⟨later, second, secondRun, undisturbedAgain, ended, same, counted⟩ := exampleSecond_ends
  rw [← table] at secondRun
  have scanned : SecondScan ⟨2, false, [[], [text "/a"]]⟩ Session.exampleClamd first.session.watch.files later
      second := second_scan (by decide) rfl firstRun undisturbed (fun _ _ _ stored => by cases stored) returned (by decide) rfl (fun path member => member) secondRun (same.trans disk.symm)
    undisturbedAgain
  exact ⟨first, second, later, ended, counted, scanned⟩

end Program

end ClamavDbscan
