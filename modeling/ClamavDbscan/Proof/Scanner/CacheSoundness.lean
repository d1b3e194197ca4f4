import ClamavDbscan.Proof.Scanner.FileNames
import ClamavDbscan.Proof.Scanner.SessionSteps

/-
This file proves when a cached record tells the verdict of the file that was looked at.
-/

namespace ClamavDbscan.Session

variable {κ : Type}

/-- Clamd answers for a file with one line of its grammar, or it gives no verdict. -/
abbrev Answer (κ : Type) := Str → Option (Node κ) → Option ReplyLine

/-- The reply to a scan begins with the answer line, and without an answer no line of it begins with the path. -/
def Replies (clamd : Clamd κ) (answer : Answer κ) : Prop :=
  ∀ path node, match answer path node with
    | none => ∀ line ∈ replyLines (clamd path node), ¬ path <+: line
    | some reply => ∃ rest, clamd path node = reply.line path ++ rest ∧
        (rest = [] ∨ ∃ more, rest = newline :: more)

/-- The verdict of clamd is the last word of its answer. -/
def verdict (answer : Answer κ) (path : Str) (node : Option (Node κ)) : Option Str :=
  (answer path node).map ReplyLine.lastWord

/-- A parsed reply has an answer with a readable path. -/
theorem Replies.parsed {clamd : Clamd κ} {answer : Answer κ} (answers : Replies clamd answer)
    {path now : Str} {node : Option (Node κ)} {stat : StatResult} {result : ClamAVDBFileMetadata}
    (parsed : parseReply path stat (replyLines (clamd path node)) now = .ok result) :
    ∃ reply, answer path node = some reply ∧ Readable path ∧
      (result.status = reply.lastWord ↔ Unambiguous reply.middle reply.lastWord) := by
  have told := answers path node
  cases answered : answer path node with
  | none =>
      rw [answered] at told
      obtain ⟨firstline, _, groups, _, lines, matched, first, _⟩ := parseReply_ok parsed
      obtain ⟨count, _, _, taken⟩ := matchStart_filename matched
      have begins : path = firstline.take count := Option.some.inj (first.symm.trans taken)
      refine absurd ?_ (told firstline (by rw [lines]; exact List.mem_cons_self))
      rw [begins]
      exact List.take_prefix _ _
  | some reply =>
      rw [answered] at told
      obtain ⟨rest, same, ends⟩ := told
      rw [same] at parsed
      obtain ⟨readable, status⟩ := parseReply_status ends parsed
      exact ⟨reply, rfl, readable, status⟩

/-- The size and the modification time of an entry identify its file. -/
def Identified (identify : Str → Nat → ℚ → Node κ) (disk : Disk κ) : Prop :=
  ∀ path entry, disk path = .ok entry → entry.node = identify path entry.size entry.mtime

/-- The size and the whole second of an entry identify its file. -/
def IdentifiedBySecond (identify : Str → Nat → Int → Node κ) : Disk κ → Prop :=
  Identified fun path size mtime => identify path size (toInt mtime)

/-- This is the record that a call has returned from the cache. -/
def cachedReturn (call : Call κ) : Option ClamAVDBFileMetadata :=
  match call.phase with
  | .finished (.ok result) => if result.pulledFromCache = true then some result else none
  | _ => none

/-- Every record from the cache tells the verdict of the file at the first stat of its call. -/
def CacheSound (answer : Answer κ) (session : Session κ) : Prop :=
  ∀ call ∈ session.calls, ∀ result ∈ cachedReturn call,
    call.seen.bind (fun entry => verdict answer call.path (some entry.node)) = some result.status

instance (answer : Answer κ) (session : Session κ) : Decidable (CacheSound answer session) :=
  inferInstanceAs (Decidable (∀ call ∈ session.calls, ∀ result ∈ cachedReturn call, _ = _))

/-- This is the entry of a call that waits for its reply. -/
def sentEntry (call : Call κ) : Option (Entry κ) :=
  match call.phase with
  | .sent entry => some entry
  | _ => none

/-- When clamd answers for a readable path, its line is unambiguous, and its verdict is that of the
file at the stat of the scan. -/
def ReadsStatted (answer : Answer κ) (session : Session κ) : Label κ → Prop
  | .read number => ∀ call ∈ session.calls[number]?, ∀ entry ∈ sentEntry call,
      ∀ reply ∈ answer call.path ((session.disk call.path).toOption.map Entry.node),
        Readable call.path → Unambiguous reply.middle reply.lastWord ∧
          verdict answer call.path (some entry.node) = some reply.lastWord
  | _ => True

instance (answer : Answer κ) (session : Session κ) :
    (label : Label κ) → Decidable (ReadsStatted answer session label)
  | .read number => inferInstanceAs (Decidable (∀ call ∈ session.calls[number]?,
      ∀ entry ∈ sentEntry call, ∀ reply ∈ answer call.path _, Readable call.path → _ ∧ _))
  | .watch _ | .change _ _ | .begin _ _ | .advance _ _ => isTrue trivial

section Trusted

variable (tells : Str → Node κ → Str → Prop) (identify : Str → Nat → Int → Node κ)

/-- Every status that a scan reads from this reply is one for the file at its stat. -/
def ToldStatus (path : Str) (entry : Entry κ) (reply : Str) : Prop :=
  ∀ stat now result, parseReply path stat (replyLines reply) now = .ok result →
    tells path entry.node result.status

/-- What clamd reads for a call lets the scan tell a status for the file at its stat. -/
def ReadsTold (clamd : Clamd κ) (session : Session κ) : Label κ → Prop
  | .read number => ∀ call ∈ session.calls[number]?, ∀ entry, call.phase = .sent entry →
      ToldStatus tells call.path entry
        (clamd call.path ((session.disk call.path).toOption.map Entry.node))
  | _ => True

/-- The row tells a status for the file that its size and second identify. -/
def TrustedRow (path : Str) (row : Row) : Prop :=
  (identify path row.filesize row.mtimeEpoch).mode.Scannable ∧
    tells path (identify path row.filesize row.mtimeEpoch) row.status

/-- The entry is identified, and a scan accepts it. -/
def TrustedEntry (path : Str) (entry : Entry κ) : Prop :=
  entry.node = identify path entry.size (toInt entry.mtime) ∧ entry.node.mode.Scannable

/-- A call in flight knows its entry, and its reply tells a status for that entry. -/
def TrustedCall (call : Call κ) : Prop :=
  match call.phase with
  | .created | .looked => True
  | .statted entry | .sent entry => TrustedEntry identify call.path entry
  | .replied entry reply =>
      TrustedEntry identify call.path entry ∧ ToldStatus tells call.path entry reply
  | .finished _ => ∀ result ∈ cachedReturn call,
      ∃ entry, call.seen = some entry ∧ tells call.path entry.node result.status

/-- Rows and calls are trusted. -/
structure Trusted (session : Session κ) : Prop where
  rows : ∀ path row, session.watch.files path = some row → TrustedRow tells identify path row
  calls : ∀ call ∈ session.calls, TrustedCall tells identify call

end Trusted

variable {clamd : Clamd κ} {answer : Answer κ} {tells : Str → Node κ → Str → Prop}
  {identify : Str → Nat → Int → Node κ} {session after : Session κ}

/-- The verdict of clamd is a status for a file. -/
theorem Trusted.cacheSound
    (trusted : Trusted (fun path node status => verdict answer path (some node) = some status)
      identify session) : CacheSound answer session := by
  intro call member result returned
  have known := trusted.calls call member
  unfold TrustedCall at known
  cases phase : call.phase with
  | finished outcome =>
      rw [phase] at known
      obtain ⟨entry, seen, told⟩ := known result returned
      rw [seen]
      exact told
  | created | looked | statted | sent | replied => simp [cachedReturn, phase] at returned

/-- A read of the statted file tells the verdict of that file. -/
theorem ReadsStatted.told (answers : Replies clamd answer) {label : Label κ}
    (reads : ReadsStatted answer session label) :
    ReadsTold (fun path node status => verdict answer path (some node) = some status)
      clamd session label := by
  cases label with
  | read number =>
      intro call stored entry sent stat now result parsed
      obtain ⟨reply, answered, readable, status⟩ := answers.parsed parsed
      obtain ⟨unambiguous, same⟩ :=
        reads call stored entry (by simp [sentEntry, sent]) reply answered readable
      rw [status.mpr unambiguous]
      exact same
  | watch | change | begin | advance => trivial

/-- A hit returns the row of its path. -/
theorem cachedResult_row {files : Files} {path : Str} {cacheOk : Bool} {stat : StatResult}
    {cached : ClamAVDBFileMetadata}
    (hit : ClamAVDB.cachedResult files path cacheOk stat = .ok (some cached)) :
    path.any isSurrogate = false ∧ ClamAVDB.cacheAgrees stat cached = true ∧
      ∃ row, files path = some row ∧ cached = ⟨path, row.mtimeEpoch, row.filesize, true, row.status,
        row.scannedAt, row.scanResults⟩ := by
  unfold ClamAVDB.cachedResult at hit
  split at hit
  · split at hit
    · rename_i found looked
      unfold ClamAVDB.getItem at looked
      split at looked
      · contradiction
      · rename_i encodes
        split at looked
        · contradiction
        · rename_i row stored
          obtain rfl := Except.ok.inj looked
          obtain ⟨agrees, same⟩ := Option.ite_none_right_eq_some.mp (Except.ok.inj hit)
          obtain rfl := Option.some.inj same
          exact ⟨Bool.eq_false_iff.mpr encodes, agrees, row, stored, rfl⟩
    · split at hit <;> simp at hit
  · simp at hit

/-- A cached hit agrees with the stat of the call. -/
theorem cachedResult_hit {files : Files} {path : Str} {cacheOk : Bool} {stat : StatResult}
    {cached : ClamAVDBFileMetadata}
    (hit : ClamAVDB.cachedResult files path cacheOk stat = .ok (some cached)) :
    path.any isSurrogate = false ∧ ∃ row, files path = some row ∧ row.filesize = stat.stSize ∧
      row.mtimeEpoch = toInt stat.stMtime ∧ cached.status = row.status := by
  obtain ⟨encodes, agrees, row, stored, rfl⟩ := cachedResult_row hit
  obtain ⟨size, second⟩ := Bool.and_eq_true_iff.mp agrees
  exact ⟨encodes, row, stored, (beq_iff_eq.mp size).symm, (beq_iff_eq.mp second).symm, rfl⟩

/-- A step of a call keeps the table and the call trusted. -/
theorem trusted_advance {files table : Files} {disk : Disk κ} {now : Str} {call next : Call κ}
    (identified : IdentifiedBySecond identify disk)
    (rows : ∀ path row, files path = some row → TrustedRow tells identify path row)
    (known : TrustedCall tells identify call)
    (advanced : Call.Advanced disk files now call next table) :
    (∀ path row, table path = some row → TrustedRow tells identify path row) ∧
      TrustedCall tells identify next := by
  cases advanced with
  | raised seen raised => exact ⟨rows, by simp [TrustedCall, cachedReturn]⟩
  | hit entry cached fresh found hit =>
      obtain ⟨_, row, stored, size, second, status⟩ := cachedResult_hit hit
      have told := (rows call.path row stored).2
      rw [size, second] at told
      refine ⟨rows, ?_⟩
      intro result returned
      obtain ⟨_, same⟩ := Option.ite_none_right_eq_some.mp returned
      obtain rfl := Option.some.inj same
      refine ⟨entry, rfl, ?_⟩
      rw [status, identified call.path entry found]
      exact told
  | miss entry fresh found => exact ⟨rows, trivial⟩
  | stat entry looked found scannable =>
      exact ⟨rows, identified call.path entry found, scannable⟩
  | send entry statted =>
      unfold TrustedCall at known
      rw [statted] at known
      exact ⟨rows, known⟩
  | store entry reply result replied parsed =>
      unfold TrustedCall at known
      rw [replied] at known
      obtain ⟨⟨identity, scannable⟩, told⟩ := known
      have status := told _ _ _ parsed
      obtain ⟨_, _, _, _, _, _, _, _, rfl⟩ := parseReply_ok parsed
      refine ⟨?_, by simp [TrustedCall, cachedReturn]⟩
      intro path row found
      cases insertOrReplace_row found with
      | inl new =>
          obtain ⟨rfl, rfl⟩ := new
          rw [identity] at scannable status
          exact ⟨scannable, status⟩
      | inr old => exact rows path row old

theorem trusted_start (begins : start session) : Trusted tells identify session := by
  obtain ⟨_, files, calls, _⟩ := begins
  refine ⟨?_, ?_⟩
  · intro path row found
    rw [files] at found
    contradiction
  · intro call member
    rw [calls] at member
    contradiction

theorem trusted_step (trusted : Trusted tells identify session)
    (identified : IdentifiedBySecond identify session.disk) {label : Label κ}
    (reads : ReadsTold tells clamd session label)
    (stepped : step clamd session label = some after) : Trusted tells identify after := by
  cases step_taken stepped with
  | watch label watch taken =>
      refine ⟨?_, ?_⟩
      · intro path row found
        exact trusted.rows path row (watched_row taken found)
      · intro call member
        obtain ⟨before, inside, same⟩ := mem_noteRemoval member
        have known := trusted.calls before inside
        cases same with
        | inl same => exact same ▸ known
        | inr marked => exact marked ▸ known
  | change path entry => exact ⟨trusted.rows, trusted.calls⟩
  | begin path cacheOk idle =>
      refine ⟨trusted.rows, ?_⟩
      intro call member
      cases List.mem_append.mp member with
      | inl old => exact trusted.calls call old
      | inr new =>
          obtain rfl := List.mem_singleton.mp new
          trivial
  | advance number now call next files idle stored advanced =>
      obtain ⟨rows, known⟩ := trusted_advance identified trusted.rows
        (trusted.calls call (List.mem_of_getElem? stored)) advanced
      refine ⟨rows, ?_⟩
      intro other member
      cases List.mem_or_eq_of_mem_set member with
      | inl old => exact trusted.calls other old
      | inr new => exact new ▸ known
  | read number call entry stored sent =>
      refine ⟨trusted.rows, ?_⟩
      intro other member
      cases List.mem_or_eq_of_mem_set member with
      | inl old => exact trusted.calls other old
      | inr new =>
          subst new
          have known := trusted.calls call (List.mem_of_getElem? stored)
          unfold TrustedCall at known
          rw [sent] at known
          exact ⟨known, reads call stored entry sent⟩

/-- In a run whose reads agree with their stats every cached record is right. -/
theorem cache_sound (clamd : Clamd κ) (answer : Answer κ) (answers : Replies clamd answer)
    (identify : Str → Nat → Int → Node κ) {past : List (Session κ × Label κ)} {last : Session κ}
    (run : Transition.Run (system clamd) past last)
    (identified : Transition.Meets (fun session _ => IdentifiedBySecond identify session.disk) past)
    (reads : Transition.Meets (ReadsStatted answer) past) :
    Transition.Throughout (CacheSound answer) past last := by
  have trusted := run.throughout _ (Trusted _ identify) (fun _ begins => trusted_start begins)
    (fun _ _ _ trusted allowed stepped =>
      trusted_step trusted allowed.1 (ReadsStatted.told answers allowed.2) stepped)
    (identified.and reads)
  exact ⟨trusted.1.cacheSound, fun taken member => (trusted.2 taken member).cacheSound⟩

/-- The example files are told apart by their size. -/
def infected : Entry Bool := ⟨⟨.regular, false⟩, 68, 1⟩

def clean : Entry Bool := ⟨⟨.regular, true⟩, 5, 2⟩

/-- Only one path exists. -/
def singleFile (entry : Entry Bool) : Disk Bool :=
  Function.update (fun path => .error ⟨.fileNotFoundError, path⟩) (text "/a") (.ok entry)

def exampleClamd : Clamd Bool := fun path node =>
  match node with
  | some ⟨_, true⟩ => path ++ text ": OK"
  | some ⟨_, false⟩ => path ++ text ": Eicar FOUND"
  | none => path ++ text ": File path check failure: No such file or directory. ERROR"

def exampleAnswer : Answer Bool := fun _ node =>
  match node with
  | some ⟨_, true⟩ => some .ok
  | some ⟨_, false⟩ => some (.found ⟨text "Eicar", by decide, by decide⟩)
  | none => some (.error ⟨text "File path check failure: No such file or directory.", by decide⟩)

theorem exampleReplies : Replies exampleClamd exampleAnswer := by
  intro path node
  match node with
  | some ⟨_, true⟩ | some ⟨_, false⟩ | none => exact ⟨[], (List.append_nil _).symm, .inl rfl⟩

def bySize : Str → Nat → Int → Node Bool := fun _ size _ =>
  if size = 68 then infected.node else clean.node

/-- A change to an identified entry keeps the disk identified. -/
theorem Identified.change {identify : Str → Nat → ℚ → Node κ} {disk : Disk κ}
    (identified : Identified identify disk) (path : Str) (entry : Entry κ)
    (known : entry.node = identify path entry.size entry.mtime) :
    Identified identify (Function.update disk path (.ok entry)) := by
  intro other found present
  by_cases same : other = path
  · subst same
    rw [Function.update_self] at present
    obtain rfl := Except.ok.inj present
    exact known
  · rw [Function.update_of_ne same] at present
    exact identified other found present

theorem singleFile_identified {identify : Str → Nat → ℚ → Node Bool} {entry : Entry Bool}
    (known : entry.node = identify (text "/a") entry.size entry.mtime) :
    Identified identify (singleFile entry) := by
  refine Identified.change ?_ (text "/a") entry known
  intro path other found
  contradiction

def atStart (disk : Disk κ) : Session κ := ⟨OnDemand.atStart, disk, [], fun _ => false⟩

/-- An unchanged file is scanned once and then found in the cache. -/
theorem cache_sound_unchanged : ∃ past last, Transition.Run (system exampleClamd) past last ∧
    last.calls.length = 2 ∧ Transition.Throughout (CacheSound exampleAnswer) past last := by
  have begins : Transition.Run (system exampleClamd) [] (atStart (singleFile infected)) :=
    .start ⟨⟨rfl, rfl, rfl, rfl, rfl, rfl⟩, rfl, rfl, rfl⟩
  have run := begins.follow [.begin (text "/a") true, .advance 0 [], .advance 0 [], .advance 0 [],
    .read 0, .advance 0 [], .begin (text "/a") true, .advance 1 []] rfl
  have identified : IdentifiedBySecond bySize (singleFile infected) := singleFile_identified rfl
  refine ⟨_, _, run, rfl, cache_sound exampleClamd exampleAnswer exampleReplies bySize run ?_ ?_⟩
  · repeat refine (Transition.meets_cons _ _ _).mpr ⟨identified, ?_⟩
    exact Transition.meets_nil _
  · decide +kernel

/-- A mirror that puts an infected file back hides it behind the verdict of a clean one. -/
theorem restored_file_wrong : ¬ ∀ (clamd : Clamd Bool) (answer : Answer Bool),
    Replies clamd answer → ∀ (identify : Str → Nat → Int → Node Bool)
    (past : List (Session Bool × Label Bool)) (last : Session Bool),
    Transition.Run (system clamd) past last →
    Transition.Meets (fun session _ => IdentifiedBySecond identify session.disk) past →
      Transition.Throughout (CacheSound answer) past last := by
  intro always
  have begins : Transition.Run (system exampleClamd) [] (atStart (singleFile infected)) :=
    .start ⟨⟨rfl, rfl, rfl, rfl, rfl, rfl⟩, rfl, rfl, rfl⟩
  have run := begins.follow [.begin (text "/a") true, .advance 0 [], .advance 0 [], .advance 0 [],
    .change (text "/a") (.ok clean), .read 0, .change (text "/a") (.ok infected), .advance 0 [],
    .begin (text "/a") true, .advance 1 []] rfl
  have original : IdentifiedBySecond bySize (singleFile infected) := singleFile_identified rfl
  have replaced := original.change (text "/a") clean rfl
  have restored := replaced.change (text "/a") infected rfl
  have sound := (always exampleClamd exampleAnswer exampleReplies bySize _ _ run (by
    repeat
      refine (Transition.meets_cons _ _ _).mpr ⟨?_, ?_⟩
      first | exact original | exact replaced | exact restored
    exact Transition.meets_nil _)).1
  exact absurd sound (by decide +kernel)

end ClamavDbscan.Session
