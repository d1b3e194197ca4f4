import ClamavDbscan.Construction.FSWatcher.MarshalJSON
import ClamavDbscan.Construction.Scanner.Database
import ClamavDbscan.Construction.Watch.Message
import ClamavDbscan.Library.PathResolution
import ClamavDbscan.Proof.Main.SilentSkips
import ClamavDbscan.Proof.Protocol.SameProtocol

/-
This file decides when the gathering and the watchers name a file by the same key.
-/

namespace ClamavDbscan

open Fanotify

/-- A slash stays a slash. -/
theorem fsdecode_slash (front back : Bytes) :
    fsdecode (front ++ slash :: back) = fsdecode front ++ codePoint '/' :: fsdecode back := by
  have split : Utf8.split (slash :: back) = .char '/' :: Utf8.split back := Utf8.split_encode '/' back
  rw [fsdecode, Utf8.split_separator (by decide), split, List.map_append]
  rfl

namespace Gathering

def texts (names : List FileName) : List Str := names.map Subtype.val

/-- The gathering queues a file at these names under this key. -/
def crawlKey (cwd path : Str) (names : List FileName) : Str :=
  pathMarks.abspath cwd (pathOf path names)

/-- The kernel gives the event the canonical path of the directory and the name in it. -/
structure EventFor (directory : List FileName) (name : FileName) (dirpath : Bytes)
    (event : KernelEvent) : Prop where
  dirpath : fsdecode dirpath = pathMarks.canonical (texts directory)
  name : fsdecode event.dfidName.name = name.val

/-- The file is queued under its key, and both watchers report the same key. -/
structure OneKey (world : GatherWorld) (path : Str) (after : Gathering) (names : List FileName)
    (dirpath : Bytes) (event : KernelEvent) : Prop where
  queued : .put (crawlKey world.cwd path names) ∈ after.acts
  watcher : fsdecode (Watcher.pathOf dirpath event) = crawlKey world.cwd path names
  fsWatcher : fsdecode (FSWatcher.Event.path ⟨some dirpath, event.dfidName.name, event.mask.toNat⟩) =
    crawlKey world.cwd path names

/-- The lexical path of the start directory is its canonical path, and the file does not lie in the
root itself; or everything is at the root, and the lexical path keeps two slashes. -/
def LexicalStart (cwd path : Str) (root below : List FileName) : Prop :=
  (pathMarks.abspath cwd path = pathMarks.canonical (texts root) ∧ root ++ below ≠ []) ∨
    (pathMarks.abspath cwd path = text "//" ∧ root ++ below = [])

variable {world : GatherWorld} {q : FinishableQueue Str} {path : Str} {start : StartPath}
  {after : Gathering} {root below : List FileName} {name : FileName} {dirpath : Bytes}
  {event : KernelEvent}

theorem texts_append (first second : List FileName) :
    texts (first ++ second) = texts first ++ texts second := List.map_append

theorem valid_texts (names : List FileName) : ∀ name ∈ texts names, pathMarks.Valid name :=
  valid_names names

/-- The names stand behind the components of the start path. -/
theorem crawlKey_eq (cwd path : Str) (names : List FileName) :
    crawlKey cwd path names = pathMarks.render
      (pathMarks.initialSlashes (if pathMarks.isabs path then path else pathMarks.join cwd path))
      (pathMarks.components (if pathMarks.isabs path then path else pathMarks.join cwd path) ++
        texts names) := by
  rw [crawlKey, pathOf_eq, PosixPath.Marks.abspath_descend (valid_names names),
    PosixPath.Marks.normpath_descend (valid_names names)]
  rfl

/-- The keys are the same exactly for a start path whose lexical reading is the resolved one. -/
theorem crawlKey_eq_iff (cwd path : Str) (root below : List FileName) (name : FileName) :
    crawlKey cwd path (below ++ [name]) =
        pathMarks.canonical (texts (root ++ below)) ++ codePoint '/' :: name.val ↔
      LexicalStart cwd path root below := by
  have slashes : text "//" = [pathMarks.slash, pathMarks.slash] := rfl
  have top : root ++ below = [] ↔ texts root ++ texts below = [] := by
    rw [← texts_append, texts, List.map_eq_nil_iff]
  rw [LexicalStart, slashes, PosixPath.Marks.abspath, PosixPath.Marks.normpath,
    PosixPath.Marks.render_eq_canonical_iff (PosixPath.Marks.components_pieces _) (valid_texts root),
    PosixPath.Marks.render_eq_slashes_iff (PosixPath.Marks.components_pieces _), ne_eq, top,
    and_assoc, and_assoc, crawlKey_eq, texts_append, texts_append]
  exact PosixPath.Marks.render_eq_iff (PosixPath.Marks.components_pieces _) (valid_texts root)
    (valid_texts below) name.property

theorem EventFor.reported {directory : List FileName} (named : EventFor directory name dirpath event) :
    fsdecode (Watcher.pathOf dirpath event) =
      pathMarks.canonical (texts directory) ++ codePoint '/' :: name.val := by
  rw [Watcher.pathOf, fsdecode_slash, named.dirpath, named.name]

/-- The crawl and the watchers use one key exactly for such a start path. -/
theorem one_key_iff (root below : List FileName) (name : FileName)
    (gathered : enqueueDirectory world q path start = .ok after)
    (walked : Walked start.tree.device start.tree (below ++ [name]))
    (named : EventFor (root ++ below) name dirpath event) :
    OneKey world path after (below ++ [name]) dirpath event ↔ LexicalStart world.cwd path root below := by
  rw [← crawlKey_eq_iff, ← named.reported]
  constructor
  · exact fun one => one.watcher.symm
  · exact fun same => ⟨(put_iff gathered).mpr walked, same.symm, same.symm⟩

/-- A removal that does not raise deletes the row that the crawl has made exactly for such a start path. -/
theorem row_removed_iff {files remaining : Files} {row : Row} {cwd : Str}
    (stored : files (crawlKey cwd path (below ++ [name])) = some row)
    (named : EventFor (root ++ below) name dirpath event)
    (removed : ClamAVDB.removeFile files (fsdecode (Watcher.pathOf dirpath event)) = .ok remaining) :
    remaining (crawlKey cwd path (below ++ [name])) = none ↔ LexicalStart cwd path root below := by
  unfold ClamAVDB.removeFile at removed
  split at removed
  · contradiction
  · obtain rfl := Except.ok.inj removed
    rw [← crawlKey_eq_iff, ← named.reported]
    by_cases same : crawlKey cwd path (below ++ [name]) = fsdecode (Watcher.pathOf dirpath event)
    · simp [same]
    · simp [same, stored]

/-- A start path is plain if no link lies on the way to its directory and it does not begin with
exactly two slashes. -/
structure PlainStart (space : PosixPath.Namespace CodePoint) (cwd : List FileName) (path : Str)
    (root : List FileName) : Prop where
  resolves : pathMarks.Resolves space (if pathMarks.isabs path then [] else texts cwd)
    (path.splitOn pathMarks.slash) (texts root) []
  single : pathMarks.initialSlashes path ≠ 2

/-- From a plain start path each file below the root's own directory has one key. -/
theorem one_key_of_plain {space : PosixPath.Namespace CodePoint} {cwd : List FileName}
    (plain : PlainStart space cwd path root)
    (working : world.cwd = pathMarks.canonical (texts cwd))
    (gathered : enqueueDirectory world q path start = .ok after)
    (walked : Walked start.tree.device start.tree (below ++ [name])) (inner : root ++ below ≠ [])
    (named : EventFor (root ++ below) name dirpath event) :
    OneKey world path after (below ++ [name]) dirpath event := by
  refine (one_key_iff root below name gathered walked named).mpr (.inl ⟨?_, inner⟩)
  rw [working]
  exact PosixPath.Marks.abspath_eq_canonical (valid_texts cwd) plain.resolves plain.single

/-- One file lies in the directory. -/
def singleTree : StartPath := .dir ⟨1, [nameA], List.nodup_singleton _, true, none⟩ fun _ => .file 1

def nameD : FileName := ⟨text "d", by decide, by decide, by decide, by decide⟩

def nameL : FileName := ⟨text "l", by decide, by decide, by decide, by decide⟩

/-- The entry `/l` is a link to the directory `/d`. -/
def linkedSpace : PosixPath.Namespace CodePoint := fun names =>
  if names = [text "d"] then some .directory
  else if names = [text "l"] then some (.link (text "/d"))
  else none

def atRoot : GatherWorld := ⟨text "/", fun _ q => q⟩

/-- The one file has been put under the start path. -/
def singleGathered (path : Str) : Gathering :=
  ⟨(FinishableQueue.initial.put (crawlKey (text "/") path [nameA])).2,
    [.put (crawlKey (text "/") path [nameA])]⟩

theorem single_gathered (path : Str) :
    enqueueDirectory atRoot .initial path singleTree = .ok (singleGathered path) := rfl

theorem single_walked : Walked 1 singleTree.tree [nameA] :=
  ⟨[], _, _, .here rfl, nameA, List.mem_singleton_self _, rfl, rfl⟩

/-- The file `/d/a` has one key. -/
theorem one_key_single :
    OneKey atRoot (text "/d") (singleGathered (text "/d")) [nameA] [0x2f, 0x64] closedFile :=
  (one_key_iff [nameD] [] nameA (single_gathered _) single_walked
    ⟨by decide, by decide⟩).mpr (.inl ⟨by decide, by decide⟩)

theorem linked_resolves : pathMarks.Resolves linkedSpace [] ((text "/l").splitOn pathMarks.slash)
    (texts [nameD]) [texts [nameL]] :=
  .stay (.inl rfl) (.follow nameL.property rfl (.stay (.inl rfl) (.enter nameD.property rfl (.done _))))

/-- Through the link `/l` the crawl queues `/l/a`, and the watchers report `/d/a`; for the root the
watchers report `//a`. -/
theorem linked_start_two_keys :
    (pathMarks.Resolves linkedSpace [] ((text "/l").splitOn pathMarks.slash) (texts [nameD])
        [texts [nameL]] ∧
      enqueueDirectory atRoot .initial (text "/l") singleTree = .ok (singleGathered (text "/l")) ∧
      EventFor [nameD] nameA [0x2f, 0x64] closedFile ∧
      crawlKey (text "/") (text "/l") [nameA] = text "/l/a" ∧
      fsdecode (Watcher.pathOf [0x2f, 0x64] closedFile) = text "/d/a" ∧
      ¬ OneKey atRoot (text "/l") (singleGathered (text "/l")) [nameA] [0x2f, 0x64] closedFile) ∧
    enqueueDirectory atRoot .initial (text "/") singleTree = .ok (singleGathered (text "/")) ∧
      EventFor [] nameA [0x2f] closedFile ∧
      crawlKey (text "/") (text "/") [nameA] = text "/a" ∧
      fsdecode (Watcher.pathOf [0x2f] closedFile) = text "//a" ∧
      ¬ OneKey atRoot (text "/") (singleGathered (text "/")) [nameA] [0x2f] closedFile := by
  refine ⟨⟨linked_resolves, rfl, ⟨by decide, by decide⟩, by decide, by decide, ?_⟩,
    rfl, ⟨by decide, by decide⟩, by decide, by decide, ?_⟩
  · intro one
    exact absurd one.watcher (by decide)
  · intro one
    exact absurd one.watcher (by decide)

end Gathering

end ClamavDbscan
