import ClamavDbscan.Construction.Scanner.Session
import ClamavDbscan.Proof.Scanner.Verdict
import ClamavDbscan.Proof.Watch.Bookkeeping

/-
This file states what each step of a session does.
-/

namespace ClamavDbscan

variable {κ : Type}

/-- A scan accepts these kinds of files. -/
def FileMode.Scannable (mode : FileMode) : Prop := mode = .regular ∨ mode = .link

/-- These are the effects of one step of `scan_file`. -/
inductive Call.Advanced (disk : Disk κ) (files : Files) (now : Str) (call : Call κ) :
    Call κ → Files → Prop
  | raised (seen : Option (Entry κ)) (raised : PyException) :
      Advanced disk files now call
        { call with phase := .finished (.error raised), seen := seen } files
  | hit (entry : Entry κ) (cached : ClamAVDBFileMetadata) (fresh : call.phase = .created)
      (found : disk call.path = .ok entry)
      (cachedHit : ClamAVDB.cachedResult files call.path call.cacheOk entry.stat =
        .ok (some cached)) :
      Advanced disk files now call
        { call with phase := .finished (.ok cached), seen := some entry } files
  | miss (entry : Entry κ) (fresh : call.phase = .created) (found : disk call.path = .ok entry) :
      Advanced disk files now call { call with phase := .looked, seen := some entry } files
  | stat (entry : Entry κ) (looked : call.phase = .looked) (found : disk call.path = .ok entry)
      (scannable : entry.node.mode.Scannable) :
      Advanced disk files now call { call with phase := .statted entry } files
  | send (entry : Entry κ) (statted : call.phase = .statted entry) :
      Advanced disk files now call { call with phase := .sent entry } files
  | store (entry : Entry κ) (reply : Str) (result : ClamAVDBFileMetadata)
      (replied : call.phase = .replied entry reply)
      (parsed : parseReply call.path entry.stat (replyLines reply) now = .ok result) :
      Advanced disk files now call { call with phase := .finished (.ok result) }
        (ClamAVDB.insertOrReplace files result)

theorem statForScan_none {path : Str} {stat taken : StatResult}
    (accepted : ClambScanMgr.statForScan path none (.ok stat) = .ok taken) :
    taken = stat ∧ stat.stMode.Scannable := by
  change (if stat.stMode = .regular ∨ stat.stMode = .link then Except.ok stat else _) = _ at accepted
  split at accepted
  · rename_i scannable
    exact ⟨(Except.ok.inj accepted).symm, scannable⟩
  · contradiction

/-- A parsed result is always stored. -/
theorem storeResult_parsed {files : Files} {path now reply : Str} {stat : StatResult}
    {result : ClamAVDBFileMetadata}
    (parsed : parseReply path stat (replyLines reply) now = .ok result) :
    ClamAVDB.storeResult files path result = (.ok result, ClamAVDB.insertOrReplace files result) := by
  obtain ⟨_, _, _, _, _, _, _, _, rfl⟩ := parseReply_ok parsed
  simp [ClamAVDB.storeResult]

/-- A row of the table is new, or it was there before. -/
theorem insertOrReplace_row {files : Files} {result : ClamAVDBFileMetadata} {path : Str} {row : Row}
    (present : ClamAVDB.insertOrReplace files result path = some row) :
    path = result.path ∧ row = ⟨result.mtimeEpoch, result.filesize, result.status, result.scannedAt,
      result.scanResults⟩ ∨ files path = some row := by
  unfold ClamAVDB.insertOrReplace at present
  by_cases same : path = result.path
  · subst same
    rw [Function.update_self, Option.some.injEq] at present
    exact .inl ⟨rfl, present.symm⟩
  · rw [Function.update_of_ne same] at present
    exact .inr present

theorem Call.advance_advanced {disk : Disk κ} {files after : Files} {now : Str}
    {call next : Call κ} (advanced : call.advance disk files now = some (next, after)) :
    Call.Advanced disk files now call next after := by
  cases phase : call.phase with
  | created =>
      simp only [Call.advance, phase] at advanced
      cases found : disk call.path with
      | error raised =>
          simp only [found, Option.some.injEq, Prod.mk.injEq] at advanced
          obtain ⟨rfl, rfl⟩ := advanced
          exact .raised call.seen raised
      | ok entry =>
          simp only [found] at advanced
          cases cached : ClamAVDB.cachedResult files call.path call.cacheOk entry.stat with
          | error raised =>
              simp only [cached, Option.some.injEq, Prod.mk.injEq] at advanced
              obtain ⟨rfl, rfl⟩ := advanced
              exact .raised (some entry) raised
          | ok hit =>
              cases hit with
              | some result =>
                  simp only [cached, Option.some.injEq, Prod.mk.injEq] at advanced
                  obtain ⟨rfl, rfl⟩ := advanced
                  exact .hit entry result phase found cached
              | none =>
                  simp only [cached, Option.some.injEq, Prod.mk.injEq] at advanced
                  obtain ⟨rfl, rfl⟩ := advanced
                  exact .miss entry phase found
  | looked =>
      simp only [Call.advance, phase] at advanced
      cases found : disk call.path with
      | error raised =>
          simp only [found, Option.some.injEq, Prod.mk.injEq] at advanced
          obtain ⟨rfl, rfl⟩ := advanced
          exact .raised call.seen raised
      | ok entry =>
          simp only [found] at advanced
          cases statted : ClambScanMgr.statForScan call.path none (.ok entry.stat) with
          | error raised =>
              simp only [statted, Option.some.injEq, Prod.mk.injEq] at advanced
              obtain ⟨rfl, rfl⟩ := advanced
              exact .raised call.seen raised
          | ok taken =>
              simp only [statted, Option.some.injEq, Prod.mk.injEq] at advanced
              obtain ⟨rfl, rfl⟩ := advanced
              exact .stat entry phase found (statForScan_none statted).2
  | statted entry =>
      simp only [Call.advance, phase] at advanced
      cases encoded : ClambScanMgr.sendScan call.path with
      | error raised =>
          simp only [encoded, Option.some.injEq, Prod.mk.injEq] at advanced
          obtain ⟨rfl, rfl⟩ := advanced
          exact .raised call.seen raised
      | ok sent =>
          simp only [encoded, Option.some.injEq, Prod.mk.injEq] at advanced
          obtain ⟨rfl, rfl⟩ := advanced
          exact .send entry phase
  | sent entry => simp [Call.advance, phase] at advanced
  | replied entry reply =>
      simp only [Call.advance, phase] at advanced
      cases parsed : parseReply call.path entry.stat (replyLines reply) now with
      | error raised =>
          simp only [parsed, Option.some.injEq, Prod.mk.injEq] at advanced
          obtain ⟨rfl, rfl⟩ := advanced
          exact .raised call.seen raised
      | ok result =>
          simp only [parsed, storeResult_parsed parsed, Option.some.injEq, Prod.mk.injEq] at advanced
          obtain ⟨rfl, rfl⟩ := advanced
          exact .store entry reply result phase parsed
  | finished outcome => simp [Call.advance, phase] at advanced

namespace Session

/-- These are the effects of a session, one for each label. -/
inductive Taken (clamd : Clamd κ) (session : Session κ) : Label κ → Session κ → Prop
  | watch (label : OnDemand.Label) (watch : OnDemand)
      (stepped : OnDemand.step session.watch label = some watch) :
      Taken clamd session (.watch label)
        ({ session with watch := watch }.noteRemoval (handledRemoval session.watch label))
  | change (path : Str) (entry : Except PyException (Entry κ)) :
      Taken clamd session (.change path entry)
        { session with disk := Function.update session.disk path entry }
  | begin (path : Str) (cacheOk : Bool) (idle : session.watch.inbox = []) :
      Taken clamd session (.begin path cacheOk)
        { session with calls := session.calls ++ [⟨path, cacheOk, .created, none, false⟩] }
  | advance (number : Nat) (now : Str) (call next : Call κ) (files : Files)
      (idle : session.watch.inbox = []) (stored : session.calls[number]? = some call)
      (advanced : Call.Advanced session.disk session.watch.files now call next files) :
      Taken clamd session (.advance number now)
        { session with
          watch := { session.watch with files := files }
          calls := session.calls.set number next
          removed := noteStore session.removed call next }
  | read (number : Nat) (call : Call κ) (entry : Entry κ)
      (stored : session.calls[number]? = some call) (sent : call.phase = .sent entry) :
      Taken clamd session (.read number)
        { session with
          calls := session.calls.set number { call with
            phase := .replied entry
              (clamd call.path ((session.disk call.path).toOption.map Entry.node)) } }

theorem step_taken {clamd : Clamd κ} {session after : Session κ} {label : Label κ}
    (stepped : step clamd session label = some after) : Taken clamd session label after := by
  cases label with
  | watch label =>
      obtain ⟨watch, taken, rfl⟩ := Option.map_eq_some_iff.mp stepped
      exact .watch label watch taken
  | change path entry =>
      obtain rfl := Option.some.inj stepped
      exact .change path entry
  | begin path cacheOk =>
      obtain ⟨idle, same⟩ := Option.ite_none_right_eq_some.mp stepped
      obtain rfl := Option.some.inj same
      exact .begin path cacheOk idle
  | advance number now =>
      obtain ⟨idle, same⟩ := Option.ite_none_right_eq_some.mp stepped
      obtain ⟨call, stored, moved⟩ := Option.bind_eq_some_iff.mp same
      obtain ⟨⟨next, files⟩, advanced, rfl⟩ := Option.map_eq_some_iff.mp moved
      exact .advance number now call next files idle stored (Call.advance_advanced advanced)
  | read number =>
      obtain ⟨call, stored, moved⟩ := Option.bind_eq_some_iff.mp stepped
      obtain ⟨next, replied, rfl⟩ := Option.map_eq_some_iff.mp moved
      unfold Call.read at replied
      split at replied
      · rename_i entry sent
        obtain rfl := Option.some.inj replied
        exact .read number call entry stored sent
      · contradiction

@[simp] theorem noteRemoval_watch (session : Session κ) (path : Option Str) :
    (session.noteRemoval path).watch = session.watch := by
  cases path <;> rfl

@[simp] theorem noteRemoval_disk (session : Session κ) (path : Option Str) :
    (session.noteRemoval path).disk = session.disk := by
  cases path <;> rfl

/-- A note only marks calls. -/
theorem mem_noteRemoval {session : Session κ} {path : Option Str} {call : Call κ}
    (member : call ∈ (session.noteRemoval path).calls) :
    ∃ before ∈ session.calls, call = before ∨ call = { before with outdated := true } := by
  cases path with
  | none => exact ⟨call, member, .inl rfl⟩
  | some path =>
      obtain ⟨before, inside, same⟩ := List.mem_map.mp member
      refine ⟨before, inside, ?_⟩
      split at same
      · exact .inr same.symm
      · exact .inl same.symm

/-- The watcher changes the table only at a handled removal. -/
theorem watch_files {watch after : OnDemand} {label : OnDemand.Label}
    (stepped : OnDemand.step watch label = some after) :
    after.files = match handledRemoval watch label with
      | some path => Function.update watch.files path none
      | none => watch.files := by
  cases OnDemand.step_taken stepped with
  | handle event others inbox =>
      have handled := OnDemand.handleEvent_handled { watch with inbox := others } event
      simp only [handledRemoval, inbox, List.head?_cons, Option.bind_some]
      generalize OnDemand.handleEvent { watch with inbox := others } event = after at handled ⊢
      cases handled with
      | write written =>
          have kept : event.operation.isRemoval = false :=
            Bool.eq_false_iff.mpr fun removal =>
              Bool.false_ne_true ((Operation.isWrite_of_isRemoval removal).symm.trans written)
          simp [kept]
      | remove removal outside encodes => simp [removal, outside, encodes]
      | raise removal outside surrogate => simp [removal, outside, surrogate]
      | skip other excluded =>
          cases removal : event.operation.isRemoval with
          | false => simp
          | true => simp [excluded removal]
  | tick | receive | fire | resume | check | reap | take => rfl

/-- The watcher adds no row. -/
theorem watched_row {session : Session κ} {watch : OnDemand} {label : OnDemand.Label} {path : Str} {row : Row}
    (taken : OnDemand.step session.watch label = some watch)
    (present : ({ session with watch := watch }.noteRemoval (handledRemoval session.watch label)).watch.files path =
      some row) : session.watch.files path = some row := by
  rw [noteRemoval_watch] at present
  change watch.files path = some row at present
  rw [watch_files taken] at present
  cases removal : handledRemoval session.watch label with
  | none =>
      rw [removal] at present
      exact present
  | some gone =>
      rw [removal] at present
      change Function.update session.watch.files gone none path = some row at present
      by_cases same : path = gone
      · subst same
        rw [Function.update_self] at present
        contradiction
      · rw [Function.update_of_ne same] at present
        exact present

end Session

end ClamavDbscan
