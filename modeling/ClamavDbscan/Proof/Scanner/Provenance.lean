import ClamavDbscan.Proof.Scanner.CacheSoundness

/-
This file proves where the records of `scan_file` and the rows of the table come from.
-/

namespace ClamavDbscan

/-- The row of a record leaves out its path and its source. -/
def rowOf (result : ClamAVDBFileMetadata) : Row :=
  ⟨result.mtimeEpoch, result.filesize, result.status, result.scannedAt, result.scanResults⟩

namespace Session

open Transition

variable {κ : Type} {clamd : Clamd κ} {past : List (Session κ × Label κ)} {session after last : Session κ}
  {taken : Session κ × Label κ} {number : Nat} {path : Str} {entry : Entry κ} {reply : Str} {row : Row}

/-- The call with this number is for this path. -/
def CallOf (state : Session κ) (number : Nat) (path : Str) : Prop :=
  (state.calls[number]?).map Call.path = some path

theorem CallOf.stored {call : Call κ} (stored : session.calls[number]? = some call) :
    CallOf session number call.path := congrArg (Option.map Call.path) stored

/-- An earlier step of this call has found the entry on the disk. -/
def StattedBy (number : Nat) (path : Str) (entry : Entry κ) (past : List (Session κ × Label κ)) : Prop :=
  ∃ state now later earlier, past = later ++ (state, .advance number now) :: earlier ∧
    CallOf state number path ∧ state.disk path = .ok entry

/-- After the stat of the call clamd has read the file and answered. -/
def RepliedTo (clamd : Clamd κ) (number : Nat) (path : Str) (entry : Entry κ) (reply : Str)
    (past : List (Session κ × Label κ)) : Prop :=
  ∃ state later earlier, past = later ++ (state, .read number) :: earlier ∧
    CallOf state number path ∧ reply = clamd path ((state.disk path).toOption.map Entry.node) ∧
      StattedBy number path entry earlier

/-- A call of the path has been answered, and a later step of it has parsed the reply with its stat. -/
def Scanned (clamd : Clamd κ) (path : Str) (row : Row) (past : List (Session κ × Label κ)) : Prop :=
  ∃ state number now later earlier, past = later ++ (state, .advance number now) :: earlier ∧
    CallOf state number path ∧ ∃ entry reply result, RepliedTo clamd number path entry reply earlier ∧ entry.node.mode.Scannable ∧
      parseReply path entry.stat (replyLines reply) now = .ok result ∧ row = rowOf result

/-- This is what a call has got from the steps so far. -/
def CallFrom (clamd : Clamd κ) (past : List (Session κ × Label κ)) (number : Nat) (call : Call κ) : Prop :=
  match call.phase with
  | .created | .looked | .finished (.error _) => True
  | .statted entry | .sent entry => StattedBy number call.path entry past ∧ entry.node.mode.Scannable
  | .replied entry reply => RepliedTo clamd number call.path entry reply past ∧ entry.node.mode.Scannable
  | .finished (.ok result) => result.path = call.path ∧ Scanned clamd call.path (rowOf result) past

/-- Each row and each record, also one from the cache, comes from a reply of clamd. -/
structure Provenance (clamd : Clamd κ) (past : List (Session κ × Label κ)) (session : Session κ) : Prop where
  rows : ∀ path row, session.watch.files path = some row → Scanned clamd path row past
  calls : ∀ (number : Nat) (call : Call κ), session.calls[number]? = some call → CallFrom clamd past number call

theorem StattedBy.next (statted : StattedBy number path entry past) : StattedBy number path entry (taken :: past) := by
  obtain ⟨state, now, later, earlier, rfl, found⟩ := statted
  exact ⟨state, now, taken :: later, earlier, rfl, found⟩

theorem RepliedTo.next (replied : RepliedTo clamd number path entry reply past) :
    RepliedTo clamd number path entry reply (taken :: past) := by
  obtain ⟨state, later, earlier, rfl, answered⟩ := replied
  exact ⟨state, taken :: later, earlier, rfl, answered⟩

theorem Scanned.next (scanned : Scanned clamd path row past) : Scanned clamd path row (taken :: past) := by
  obtain ⟨state, number, now, later, earlier, rfl, parsed⟩ := scanned
  exact ⟨state, number, now, taken :: later, earlier, rfl, parsed⟩

/-- What holds of a call depends only on its path and its phase, and later steps keep it. -/
theorem CallFrom.next {call other : Call κ} (known : CallFrom clamd past number call) (path : other.path = call.path)
    (phase : other.phase = call.phase) : CallFrom clamd (taken :: past) number other := by
  unfold CallFrom at known ⊢
  rw [path, phase]
  split at known
  · trivial
  · trivial
  · trivial
  · exact ⟨known.1.next, known.2⟩
  · exact ⟨known.1.next, known.2⟩
  · exact ⟨known.1.next, known.2⟩
  · exact ⟨known.1, known.2.next⟩

/-- A step of a call keeps the rows and gives the call what the step has seen. -/
theorem provenance_advance {now : Str} {call next : Call κ} {files : Files} (provenance : Provenance clamd past session)
    (stored : session.calls[number]? = some call)
    (advanced : Call.Advanced session.disk session.watch.files now call next files) :
    (∀ path row, files path = some row → Scanned clamd path row ((session, .advance number now) :: past)) ∧
      CallFrom clamd ((session, .advance number now) :: past) number next := by
  have rows : ∀ path row, session.watch.files path = some row →
      Scanned clamd path row ((session, .advance number now) :: past) :=
    fun path row present => (provenance.rows path row present).next
  have known := provenance.calls number call stored
  have own : CallOf session number call.path := .stored stored
  cases advanced with
  | raised => exact ⟨rows, trivial⟩
  | hit held cached fresh found looked =>
      -- The record of a hit is the row itself, so it has the origin of the row.
      obtain ⟨_, _, row, present, rfl⟩ := cachedResult_row looked
      exact ⟨rows, rfl, rows call.path row present⟩
  | miss => exact ⟨rows, trivial⟩
  | stat held looked found scannable => exact ⟨rows, ⟨session, now, [], past, rfl, own, found⟩, scannable⟩
  | send held statted =>
      rw [CallFrom, statted] at known
      exact ⟨rows, known.1.next, known.2⟩
  | store held reply result replied parsed =>
      rw [CallFrom, replied] at known
      have scanned : Scanned clamd call.path (rowOf result) ((session, .advance number now) :: past) :=
        ⟨session, number, now, [], past, rfl, own, held, reply, result, known.1, known.2, parsed, rfl⟩
      obtain ⟨_, _, _, _, _, _, _, _, rfl⟩ := parseReply_ok parsed
      refine ⟨?_, rfl, scanned⟩
      intro path row present
      cases insertOrReplace_row present with
      | inl new =>
          obtain ⟨rfl, rfl⟩ := new
          exact scanned
      | inr old => exact rows path row old

theorem provenance_step {label : Label κ} (provenance : Provenance clamd past session)
    (stepped : step clamd session label = some after) : Provenance clamd ((session, label) :: past) after := by
  have rows : ∀ path row, session.watch.files path = some row → Scanned clamd path row ((session, label) :: past) :=
    fun path row present => (provenance.rows path row present).next
  have calls : ∀ (number : Nat) (call : Call κ), session.calls[number]? = some call →
      CallFrom clamd ((session, label) :: past) number call :=
    fun number call stored => (provenance.calls number call stored).next rfl rfl
  cases step_taken stepped with
  | watch label watch taken =>
      refine ⟨?_, ?_⟩
      · intro path row present
        exact rows path row (watched_row taken present)
      · intro number call stored
        cases removal : handledRemoval session.watch label with
        | none =>
            rw [removal] at stored
            exact calls number call stored
        | some gone =>
            rw [removal] at stored
            change (session.calls.map _)[number]? = some call at stored
            rw [List.getElem?_map] at stored
            obtain ⟨before, listed, rfl⟩ := Option.map_eq_some_iff.mp stored
            have known := provenance.calls number before listed
            split <;> exact known.next rfl rfl
  | change path entry => exact ⟨rows, calls⟩
  | begin path cacheOk idle =>
      refine ⟨rows, ?_⟩
      intro number call stored
      change (session.calls ++ [_])[number]? = some call at stored
      rw [getElem?_snoc] at stored
      split at stored
      · obtain rfl := Option.some.inj stored
        trivial
      · exact calls number call stored
  | advance number now call next files idle stored advanced =>
      obtain ⟨kept, moved⟩ := provenance_advance provenance stored advanced
      refine ⟨kept, ?_⟩
      intro other held listed
      rcases replace_cases listed with ⟨rfl, rfl⟩ | ⟨_, before⟩
      · exact moved
      · exact calls other held before
  | read number call entry stored sent =>
      refine ⟨rows, ?_⟩
      intro other held listed
      rcases replace_cases listed with ⟨rfl, rfl⟩ | ⟨_, before⟩
      · have known := provenance.calls other call stored
        have own : CallOf session other call.path := .stored stored
        rw [CallFrom, sent] at known
        exact ⟨⟨session, [], past, rfl, own, rfl, known.1⟩, known.2⟩
      · exact calls other held before

/-- No verdict is invented. In every order of the calls, the watcher and the changes of the disk, each row and each
record comes from a reply of clamd for its path, read after a stat that the record tells. -/
theorem provenance (run : Run (system clamd) past last) : Provenance clamd past last := by
  induction run with
  | start begins =>
      obtain ⟨_, files, calls, _⟩ := begins
      refine ⟨?_, ?_⟩
      · intro path row present
        rw [files] at present
        contradiction
      · intro number call stored
        rw [calls] at stored
        contradiction
  | next _ stepped ih => exact provenance_step ih stepped

/-- The second call returns the row that the first call has stored. -/
theorem provenance_unchanged : ∃ past last, Run (system exampleClamd) past last ∧ last.calls.length = 2 ∧
    Provenance exampleClamd past last := by
  have begins : Run (system exampleClamd) [] (atStart (singleFile infected)) :=
    .start ⟨⟨rfl, rfl, rfl, rfl, rfl, rfl⟩, rfl, rfl, rfl⟩
  have run := begins.follow [.begin (text "/a") true, .advance 0 [], .advance 0 [], .advance 0 [],
    .read 0, .advance 0 [], .begin (text "/a") true, .advance 1 []] rfl
  exact ⟨_, _, run, rfl, provenance run⟩

end Session

end ClamavDbscan
