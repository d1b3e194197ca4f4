import ClamavDbscan.Construction.Queue.FinishableQueue
import ClamavDbscan.Construction.Scanner.Reply
import ClamavDbscan.Library.FileTree
import ClamavDbscan.Library.PosixPath

/-
This file models `enqueue_directory`, which gathers the files of a path for the queue.
-/

namespace ClamavDbscan

theorem codePoint_slash_ne_dot : codePoint '/' ≠ codePoint '.' := by decide

def pathMarks : PosixPath.Marks CodePoint := ⟨codePoint '/', codePoint '.', codePoint_slash_ne_dot⟩

/-- These names can be listed in a directory. -/
abbrev FileName := { name : Str // pathMarks.Valid name }

abbrev ScanTree := FileTree FileName PyException

def joinName (dirpath : Str) (name : FileName) : Str := pathMarks.join dirpath name.val

/-- An existing path leads to a directory or to a file, since the calls on it follow links. -/
inductive StartPath where
  | file (device : Nat)
  | dir (directory : Directory FileName PyException) (child : FileName → ScanTree)

def StartPath.tree : StartPath → ScanTree
  | .file device => .file device
  | .dir directory child => .dir directory child

/-- The gathering puts a path into the queue, or prints a line. -/
inductive GatherAct where
  | put (fullpath : Str)
  | print (line : Str)
  deriving DecidableEq

/-- The acts are a record for statements, in their order. -/
structure Gathering where
  q : FinishableQueue Str
  acts : List GatherAct

/-- The kernel can refuse a call, and the queue can refuse an item. -/
abbrev GatherError := PyException ⊕ QueueError

/-- The other tasks run after each directory, while the gathering sleeps. -/
structure GatherWorld where
  cwd : Str
  others : Str → FinishableQueue Str → FinishableQueue Str

namespace Gathering

def put (gathering : Gathering) (fullpath : Str) : Except GatherError Gathering :=
  match gathering.q.put fullpath with
  | (.ok (), q) => .ok ⟨q, gathering.acts ++ [.put fullpath]⟩
  | (.error raised, _) => .error (.inr raised)

def print (gathering : Gathering) (line : Str) : Gathering :=
  { gathering with acts := gathering.acts ++ [.print line] }

end Gathering

/-- The line about a directory that is left out. -/
def differentFilesystem (subdirpath : Str) : Str :=
  text "Will not scan " ++ subdirpath ++ text ". On different filesystem"

/-- The call of `os.lstat` on an entry of a directory gives its device. -/
def lstatDevice (directory : Directory FileName PyException) (child : FileName → ScanTree)
    (name : FileName) : Except GatherError Nat :=
  match directory.denied with
  | some raised => .error (.inl raised)
  | none => .ok (child name).device

/-- The loop over `filenames`. -/
def putFilenames (cwd dirpath : Str) (filenames : List FileName) (gathering : Gathering) :
    Except GatherError Gathering :=
  filenames.foldlM (fun gathering filename =>
    gathering.put (pathMarks.abspath cwd (joinName dirpath filename))) gathering

/-- The loop over `dirnames` collects those on another device. -/
def collectToRemove (topdev : Nat) (directory : Directory FileName PyException)
    (child : FileName → ScanTree) (dirpath : Str) (dirnames : List FileName)
    (gathering : Gathering) : Except GatherError (List FileName × Gathering) :=
  dirnames.foldlM (fun (toRemove, gathering) dirname =>
    (lstatDevice directory child dirname).map fun device =>
      if device ≠ topdev then
        (toRemove ++ [dirname], gathering.print (differentFilesystem (joinName dirpath dirname)))
      else (toRemove, gathering)) ([], gathering)

/-- The body of the loop over the walk ends with the sleep. -/
def gatherBody (world : GatherWorld) (topdev : Nat) :
    FileTree.Body FileName PyException GatherError Str Gathering :=
  fun directory child dirpath dirnames filenames gathering =>
    (putFilenames world.cwd dirpath filenames gathering).bind fun gathering =>
      (collectToRemove topdev directory child dirpath dirnames gathering).map
        fun (toRemove, gathering) =>
          (toRemove.foldl List.erase dirnames,
            { gathering with q := world.others dirpath gathering.q })

/-- The device of the path decides which directories are walked. -/
def enqueueDirectory (world : GatherWorld) (q : FinishableQueue Str) (path : Str)
    (start : StartPath) : Except GatherError Gathering :=
  start.tree.walk joinName (gatherBody world start.tree.device) path ⟨q, []⟩

end ClamavDbscan
