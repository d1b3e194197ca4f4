import ClamavDbscan.Proof.Main.ProgramSteps
import ClamavDbscan.Proof.Scanner.QuietScan

/-
This file follows the calls of one file that does not change while the rest of the disk does.
-/

namespace ClamavDbscan

open Transition

variable {κ : Type} {clamd : Clamd κ} {disk : Disk κ} {files after : Files} {path now : Str} {entry : Entry κ}
  {call next : Call κ}

/-- Only this file exists. -/
def onlyFile (path : Str) (entry : Entry κ) : Disk κ :=
  Function.update (fun other => .error ⟨.fileNotFoundError, other⟩) path (.ok entry)

/-- A fresh scan depends on the file that it scans. -/
theorem freshScan_onlyFile (found : disk path = .ok entry) :
    freshScan clamd (onlyFile path entry) path = freshScan clamd disk path := by
  have same : onlyFile path entry path = disk path := (Function.update_self _ _ _).trans found.symm
  simp only [freshScan, scanFileNow, same]

/-- The call ends like a fresh scan of the file, whatever happens to the table. -/
def Told (clamd : Clamd κ) (disk : Disk κ) (call : Call κ) : Prop := ∃ files, OnTrack clamd disk files call

/-- The size or the second of the entry that the call holds differs from the file, or the call is over. -/
def Stale (entry : Entry κ) (call : Call κ) : Prop :=
  match call.phase with
  | .statted held | .sent held | .replied held _ =>
      held.size = entry.size → toInt held.mtime ≠ toInt entry.mtime
  | .finished _ => True
  | .created | .looked => False

/-- Only the outcome of a finished call depends on the table. -/
theorem Told.onTrack (told : Told clamd disk call) (files : Files)
    (pending : Program.finishedOutcome call = none) : OnTrack clamd disk files call := by
  obtain ⟨other, track⟩ := told
  cases phase : call.phase with
  | finished outcome => simp [Program.finishedOutcome, phase] at pending
  | created | looked | statted | sent | replied =>
      rw [OnTrack, phase] at track ⊢
      exact track

/-- The mark of an outdated call changes nothing. -/
theorem Told.outdated (told : Told clamd disk call) : Told clamd disk { call with outdated := true } := by
  obtain ⟨files, track⟩ := told
  exact ⟨files, track⟩

theorem advance_onlyFile (found : disk call.path = .ok entry) (files : Files) (now : Str) :
    call.advance (onlyFile call.path entry) files now = call.advance disk files now := by
  have same : onlyFile call.path entry call.path = disk call.path :=
    (Function.update_self _ _ _).trans found.symm
  simp only [Call.advance, same]

theorem read_onlyFile (found : disk call.path = .ok entry) :
    call.read clamd (onlyFile call.path entry) = call.read clamd disk := by
  have same : onlyFile call.path entry call.path = disk call.path :=
    (Function.update_self _ _ _).trans found.symm
  simp only [Call.read, same]

/-- A call of another file does not change the row of this one. -/
theorem Call.Advanced.elsewhere (advanced : Call.Advanced disk files now call next after)
    (other : call.path ≠ path) : after path = files path := by
  cases advanced with
  | store entry reply result replied parsed =>
      obtain ⟨_, _, _, _, _, _, _, _, rfl⟩ := parseReply_ok parsed
      exact Function.update_of_ne other.symm _ _
  | raised | hit | miss | stat | send => rfl

theorem trueTable_onlyFile (same : after path = files path ∨ after path = none)
    (table : TrueTable clamd (onlyFile path entry) files) : TrueTable clamd (onlyFile path entry) after := by
  intro other row held stored found
  by_cases here : other = path
  · subst here
    rcases same with same | gone
    · intro size second encodes
      obtain ⟨known, result, listed, tells⟩ := table other row held (same.symm.trans stored) found size second encodes
      exact ⟨known, result, same.trans listed, tells⟩
    · rw [gone] at stored
      contradiction
  · rw [onlyFile, Function.update_of_ne here] at found
    contradiction

/-- A stale call goes on, or it stores a row that a lookup does not accept. -/
theorem stale_advance (table : TrueTable clamd (onlyFile call.path entry) files) (stale : Stale entry call)
    (advanced : Call.Advanced disk files now call next after) :
    Stale entry next ∧ TrueTable clamd (onlyFile call.path entry) after := by
  cases advanced with
  | raised => exact ⟨trivial, table⟩
  | hit => exact ⟨trivial, table⟩
  | miss held fresh => simp [Stale, fresh] at stale
  | stat held looked => simp [Stale, looked] at stale
  | send held statted =>
      rw [Stale, statted] at stale
      exact ⟨stale, table⟩
  | store held reply result replied parsed =>
      rw [Stale, replied] at stale
      obtain ⟨_, _, _, _, _, _, _, _, rfl⟩ := parseReply_ok parsed
      refine ⟨trivial, ?_⟩
      intro other row present stored found size second
      by_cases here : other = call.path
      · subst here
        rw [onlyFile, Function.update_self, Except.ok.injEq] at found
        subst found
        rw [ClamAVDB.insertOrReplace, Function.update_self, Option.some.injEq] at stored
        subst stored
        exact absurd second (stale size)
      · rw [onlyFile, Function.update_of_ne here] at found
        contradiction

namespace Session

/-- Each row and each call of the file is right about it, or it is an older call whose row shows another size or
second. -/
structure Settled (clamd : Clamd κ) (path : Str) (entry : Entry κ) (since : Nat) (session : Session κ) : Prop where
  found : session.disk path = .ok entry
  table : TrueTable clamd (onlyFile path entry) session.watch.files
  calls : ∀ (number : Nat) (call : Call κ), session.calls[number]? = some call → call.path = path →
    Told clamd (onlyFile path entry) call ∨ number < since ∧ Stale entry call

variable {since number : Nat} {session moved : Session κ}

/-- New calls have the default arguments. -/
theorem Settled.append (settled : session.Settled clamd path entry since) (q : FinishableQueue Str)
    {calls : List (Call κ)} (fresh : ∀ call ∈ calls, call.phase = .created ∧ call.cacheOk = true) :
    Settled clamd path entry since
      { session with watch := { session.watch with q := q }, calls := session.calls ++ calls } where
  found := settled.found
  table := settled.table
  calls number call stored named := by
    change (session.calls ++ calls)[number]? = some call at stored
    rcases Nat.lt_or_ge number session.calls.length with old | new
    · rw [List.getElem?_append_left old] at stored
      exact settled.calls number call stored named
    · rw [List.getElem?_append_right new] at stored
      obtain ⟨created, cacheOk⟩ := fresh call (List.mem_of_getElem? stored)
      exact .inl ⟨fun _ => none, by rw [OnTrack, created]; exact cacheOk⟩

/-- The watcher marks calls and removes rows. -/
theorem Settled.watch {label : OnDemand.Label} (settled : session.Settled clamd path entry since)
    (stepped : step clamd session (.watch label) = some moved) : moved.Settled clamd path entry since := by
  obtain ⟨watch, taken, rfl⟩ := Option.map_eq_some_iff.mp stepped
  refine ⟨by rw [noteRemoval_disk]; exact settled.found, ?_, ?_⟩
  · rw [noteRemoval_watch]
    refine trueTable_onlyFile ?_ settled.table
    change watch.files path = _ ∨ watch.files path = none
    rw [watch_files taken]
    cases handledRemoval session.watch label with
    | none => exact .inl rfl
    | some gone =>
        by_cases same : path = gone
        · subst same
          exact .inr (Function.update_self _ _ _)
        · exact .inl (Function.update_of_ne same _ _)
  · intro number call stored named
    cases removal : handledRemoval session.watch label with
    | none =>
        rw [removal] at stored
        exact settled.calls number call stored named
    | some gone =>
        rw [removal] at stored
        change (session.calls.map _)[number]? = some call at stored
        rw [List.getElem?_map] at stored
        obtain ⟨before, listed, rfl⟩ := Option.map_eq_some_iff.mp stored
        split at named
        · rename_i marked
          rw [if_pos marked]
          exact (settled.calls number before listed named).imp Told.outdated id
        · rename_i unmarked
          rw [if_neg unmarked]
          exact settled.calls number before listed named

/-- A call that is replaced keeps its path. -/
theorem Settled.replace (settled : session.Settled clamd path entry since) {files : Files} {call next : Call κ}
    (removed : Str → Bool) (stored : session.calls[number]? = some call) (named : next.path = call.path)
    (table : TrueTable clamd (onlyFile path entry) files)
    (kept : call.path = path → Told clamd (onlyFile path entry) next ∨ number < since ∧ Stale entry next) :
    Settled clamd path entry since
      { session with
        watch := { session.watch with files := files }
        calls := session.calls.set number next
        removed := removed } where
  found := settled.found
  table := table
  calls other held listed same := by
    rcases replace_cases listed with ⟨rfl, rfl⟩ | ⟨_, before⟩
    · exact kept (named.symm.trans same)
    · exact settled.calls other held before same

theorem Settled.advance (settled : session.Settled clamd path entry since)
    (stepped : step clamd session (.advance number now) = some moved) : moved.Settled clamd path entry since := by
  obtain ⟨_, taken⟩ := Option.ite_none_right_eq_some.mp stepped
  obtain ⟨call, stored, taken⟩ := Option.bind_eq_some_iff.mp taken
  obtain ⟨⟨next, files⟩, advanced, rfl⟩ := Option.map_eq_some_iff.mp taken
  have effect := Call.advance_advanced advanced
  have named : next.path = call.path := by
    cases effect <;> rfl
  have pending : Program.finishedOutcome call = none := by
    unfold Program.finishedOutcome
    split
    · rename_i finished
      simp [Call.advance, finished] at advanced
    · rfl
  by_cases here : call.path = path
  · subst here
    rcases settled.calls number call stored rfl with told | ⟨old, stale⟩
    · rw [← advance_onlyFile settled.found] at advanced
      have keeps := onTrack_advance settled.table (told.onTrack _ pending) advanced
      exact settled.replace _ stored named (keeps.trueTable settled.table) fun _ => .inl ⟨files, keeps.track⟩
    · obtain ⟨kept, table⟩ := stale_advance settled.table stale effect
      exact settled.replace _ stored named table fun _ => .inr ⟨old, kept⟩
  · exact settled.replace _ stored named (trueTable_onlyFile (.inl (effect.elsewhere here)) settled.table)
      fun same => absurd same here

theorem Settled.read (settled : session.Settled clamd path entry since)
    (stepped : step clamd session (.read number) = some moved) : moved.Settled clamd path entry since := by
  obtain ⟨call, stored, taken⟩ := Option.bind_eq_some_iff.mp stepped
  obtain ⟨next, replied, rfl⟩ := Option.map_eq_some_iff.mp taken
  have effect := replied
  unfold Call.read at effect
  split at effect
  · rename_i held sent
    obtain rfl := Option.some.inj effect
    refine settled.replace session.removed stored rfl settled.table ?_
    rintro rfl
    rcases settled.calls number call stored rfl with told | ⟨old, stale⟩
    · rw [← read_onlyFile settled.found] at replied
      have pending : Program.finishedOutcome call = none := by simp [Program.finishedOutcome, sent]
      exact .inl ⟨_, (onTrack_read (told.onTrack session.watch.files pending) replied).1⟩
    · rw [Stale, sent] at stale
      exact .inr ⟨old, stale⟩
  · contradiction

end Session

namespace Program

variable {config : ProgramConfig} {since : Nat} {program last : Program κ} {label : Label κ}

/-- The disk changes only elsewhere. -/
def Untouched (path : Str) (_ : Program κ) : Label κ → Prop
  | .change other _ => other ≠ path
  | _ => True

instance (path : Str) (program : Program κ) : (label : Label κ) → Decidable (Untouched path program label)
  | .change other _ => inferInstanceAs (Decidable (other ≠ path))
  | .gather | .scanFiles | .watch _ | .advance _ _ | .read _ | .stepReady _ | .resume _ => isTrue trivial

theorem settled_setLoop {loop : ScanLoop} (settled : program.session.Settled clamd path entry since) :
    (program.setLoop loop).session.Settled clamd path entry since := by
  refine settled.append loop.filesToScan ?_
  intro call member
  obtain ⟨task, _, rfl⟩ := List.mem_map.mp member
  exact ⟨rfl, rfl⟩

theorem settled_step (settled : program.session.Settled clamd path entry since)
    (untouched : Untouched path program label) (stepped : step config clamd program label = some last) :
    last.session.Settled clamd path entry since := by
  cases step_taken stepped with
  | gather => exact ⟨settled.found, settled.table, settled.calls⟩
  | scanFiles => exact settled_setLoop settled
  | watch label session watching other taken =>
      have marked := settled.watch taken
      exact ⟨marked.found, marked.table, marked.calls⟩
  | change other node session taken =>
      obtain rfl := Option.some.inj taken
      exact ⟨(Function.update_of_ne untouched.symm _ _).trans settled.found, settled.table, settled.calls⟩
  | goOn number now session taken => exact settled.advance taken
  | finish number now session outcome loop taken => exact settled.advance taken
  | read number session taken => exact settled.read taken
  | stepReady number loop => exact settled_setLoop settled
  | resume completed loop => exact settled_setLoop settled

end Program

/-- A call that begins after its file is settled ends like a fresh scan of it. -/
theorem Session.Settled.verdict {since number : Nat} {outcome : Outcome} {session : Session κ}
    (settled : session.Settled clamd path entry since)
    (stored : session.calls[number]? = some call) (later : since ≤ number) (named : call.path = path)
    (finished : call.phase = .finished outcome) : SameVerdict outcome (freshScan clamd session.disk path) := by
  obtain ⟨files, track⟩ := (settled.calls number call stored named).resolve_right
    fun both => absurd both.1 (Nat.not_lt.mpr later)
  rw [OnTrack, finished] at track
  subst named
  rw [← freshScan_onlyFile settled.found]
  exact track.1

end ClamavDbscan
