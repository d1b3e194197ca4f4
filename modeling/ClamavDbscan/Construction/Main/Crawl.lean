import ClamavDbscan.Construction.Main.EnqueueDirectory

/-
This file models `enqueue_directory` with a record of what it has done when it raises or is cancelled.
-/

namespace ClamavDbscan

/-- The walk lists a directory, the gathering acts, or a directory is removed from the list. -/
inductive CrawlEvent where
  | listed (names : List FileName)
  | act (act : GatherAct)
  | pruned (names : List FileName)
  deriving DecidableEq

/-- The events are a record for statements, in their order. -/
structure Crawl where
  q : FinishableQueue Str
  events : List CrawlEvent

inductive CrawlStop where
  | raised (error : GatherError)
  | cancelled

/-- An exception leaves the events as they are. -/
abbrev CrawlError := CrawlStop × Crawl

/-- The task can also be cancelled in the sleep after a directory. -/
structure CrawlWorld extends GatherWorld where
  cancelled : Str → Bool

namespace Crawl

def record (crawl : Crawl) (event : CrawlEvent) : Crawl :=
  { crawl with events := crawl.events ++ [event] }

def put (crawl : Crawl) (fullpath : Str) : Except CrawlError Crawl :=
  match crawl.q.put fullpath with
  | (.ok (), q) => .ok { crawl.record (.act (.put fullpath)) with q := q }
  | (.error raised, q) => .error (.raised (.inr raised), { crawl with q := q })

def acts (crawl : Crawl) : List GatherAct :=
  crawl.events.filterMap fun
    | .act act => some act
    | .listed _ | .pruned _ => none

/-- This is the state in which the gathering has returned or raised. -/
def ended : Except CrawlError Crawl → Crawl
  | .ok crawl => crawl
  | .error (_, crawl) => crawl

end Crawl

/-- The loop over `filenames`. -/
def crawlFilenames (cwd dirpath : Str) (filenames : List FileName) (crawl : Crawl) :
    Except CrawlError Crawl :=
  filenames.foldlM (fun crawl filename =>
    crawl.put (pathMarks.abspath cwd (joinName dirpath filename))) crawl

/-- A round of the loop over `dirnames`. -/
def lookAt (topdev : Nat) (directory : Directory FileName PyException) (child : FileName → ScanTree)
    (dirpath : Str) (looked : List FileName × Crawl) (dirname : FileName) :
    Except CrawlError (List FileName × Crawl) :=
  match lstatDevice directory child dirname with
  | .error raised => .error (.raised raised, looked.2)
  | .ok device =>
      if device ≠ topdev then
        .ok (looked.1 ++ [dirname],
          looked.2.record (.act (.print (differentFilesystem (joinName dirpath dirname)))))
      else .ok looked

/-- The names are removed from `dirnames`, and then the task sleeps. -/
def leave (world : CrawlWorld) (top : Str × List FileName) (dirnames : List FileName)
    (looked : List FileName × Crawl) : Except CrawlError (List FileName × Crawl) :=
  let left : Crawl := ⟨world.others top.1 looked.2.q,
    looked.2.events ++ looked.1.map fun dirname => .pruned (top.2 ++ [dirname])⟩
  if world.cancelled top.1 then .error (.cancelled, left)
  else .ok (looked.1.foldl List.erase dirnames, left)

/-- The body of the loop over the walk knows the path and the names of its directory. -/
def crawlBody (world : CrawlWorld) (topdev : Nat) :
    FileTree.Body FileName PyException CrawlError (Str × List FileName) Crawl :=
  fun directory child top dirnames filenames crawl =>
    (crawlFilenames world.cwd top.1 filenames (crawl.record (.listed top.2))).bind fun filled =>
      (dirnames.foldlM (lookAt topdev directory child top.1) ([], filled)).bind
        (leave world top dirnames)

def joinNames (top : Str × List FileName) (name : FileName) : Str × List FileName :=
  (joinName top.1 name, top.2 ++ [name])

def crawlDirectory (world : CrawlWorld) (q : FinishableQueue Str) (path : Str) (start : StartPath) :
    Except CrawlError Crawl :=
  start.tree.walk joinNames (crawlBody world start.tree.device) (path, []) ⟨q, []⟩

end ClamavDbscan
