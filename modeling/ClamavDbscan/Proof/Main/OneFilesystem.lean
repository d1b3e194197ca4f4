import ClamavDbscan.Construction.Main.Crawl
import ClamavDbscan.Library.WalkOrder
import ClamavDbscan.Proof.Main.SilentSkips

/-
This file proves that the gathering stays on one filesystem and puts no path twice, however it ends.
-/

namespace ClamavDbscan

namespace Crawl

open FileTree Gathering

variable {world : CrawlWorld} {topdev : Nat} {directory : Directory FileName PyException}
  {child : FileName → ScanTree} {tree entry : ScanTree} {names : List FileName}

/-- These names of directories lie on another device. -/
def elsewhere (topdev : Nat) (directory : Directory FileName PyException)
    (child : FileName → ScanTree) : List FileName :=
  (dirnames directory child).filter fun name => (child name).device ≠ topdev

/-- The walk descends into the names on the device. -/
def onDevice (topdev : Nat) (_ : Directory FileName PyException) (child : FileName → ScanTree)
    (name : FileName) : Bool :=
  (child name).device = topdev

/-- These are the events of a directory. -/
def emits (cwd : Str) (topdev : Nat) (directory : Directory FileName PyException)
    (child : FileName → ScanTree) (top : Str × List FileName) : List CrawlEvent :=
  [.listed top.2] ++
    ((filenames directory child).map (fun name => .act (.put (pathMarks.abspath cwd (joinName top.1 name)))) ++
      ((elsewhere topdev directory child).map
          (fun name => .act (.print (differentFilesystem (joinName top.1 name)))) ++
        (elsewhere topdev directory child).map fun name => .pruned (top.2 ++ [name])))

section Body

variable {cwd dirpath : Str} {crawl : Crawl}

theorem put_logs (crawl : Crawl) (fullpath : Str) :
    Logs events (fun error : CrawlError => error.2.events) crawl.events [.act (.put fullpath)]
      (crawl.put fullpath) := by
  unfold Crawl.put
  split
  · rfl
  · exact ⟨[], List.nil_prefix, (List.append_nil _).symm⟩

theorem crawlFilenames_logs (filenames : List FileName) (crawl : Crawl) :
    Logs events (fun error : CrawlError => error.2.events) crawl.events
      (filenames.map fun name => .act (.put (pathMarks.abspath cwd (joinName dirpath name))))
      (crawlFilenames cwd dirpath filenames crawl) := by
  rw [List.map_eq_flatMap]
  exact foldlM_logs (fun _ _ crawl => put_logs crawl _) crawl

/-- A round raises, removes the name, or leaves everything as it is. -/
inductive LookCase (topdev : Nat) (directory : Directory FileName PyException)
    (child : FileName → ScanTree) (dirpath : Str) (looked : List FileName × Crawl) (name : FileName) : Prop
  | raised (error : GatherError) :
      lookAt topdev directory child dirpath looked name = .error (.raised error, looked.2) →
      LookCase topdev directory child dirpath looked name
  | removed : (child name).device ≠ topdev →
      lookAt topdev directory child dirpath looked name = .ok (looked.1 ++ [name],
        looked.2.record (.act (.print (differentFilesystem (joinName dirpath name))))) →
      LookCase topdev directory child dirpath looked name
  | stays : (child name).device = topdev →
      lookAt topdev directory child dirpath looked name = .ok looked →
      LookCase topdev directory child dirpath looked name

theorem lookAt_cases (topdev : Nat) (directory : Directory FileName PyException)
    (child : FileName → ScanTree) (dirpath : Str) (looked : List FileName × Crawl) (name : FileName) :
    LookCase topdev directory child dirpath looked name := by
  cases denied : directory.denied with
  | some raised => exact .raised (.inl raised) (by rw [lookAt, lstatDevice, denied])
  | none =>
      by_cases different : (child name).device ≠ topdev
      · exact .removed different (by rw [lookAt, lstatDevice, denied]; exact if_pos different)
      · exact .stays (not_not.mp different) (by rw [lookAt, lstatDevice, denied]; exact if_neg different)

theorem lookAt_logs (looked : List FileName × Crawl) (name : FileName) :
    Logs (fun looked => looked.2.events) (fun error : CrawlError => error.2.events) looked.2.events
      (if (child name).device ≠ topdev then [.act (.print (differentFilesystem (joinName dirpath name)))]
        else []) (lookAt topdev directory child dirpath looked name) := by
  cases lookAt_cases topdev directory child dirpath looked name with
  | raised error result =>
      rw [result]
      exact ⟨[], List.nil_prefix, (List.append_nil _).symm⟩
  | removed different result =>
      rw [result, if_pos different]
      rfl
  | stays same result =>
      rw [result, if_neg (not_not.mpr same)]
      exact (List.append_nil _).symm

theorem lookAt_toRemove {looked after : List FileName × Crawl} {name : FileName}
    (done : lookAt topdev directory child dirpath looked name = .ok after) :
    after.1 = looked.1 ++ if (child name).device ≠ topdev then [name] else [] := by
  cases lookAt_cases topdev directory child dirpath looked name with
  | raised error result => cases result.symm.trans done
  | removed different result =>
      obtain rfl := Except.ok.inj (result.symm.trans done)
      rw [if_pos different]
  | stays same result =>
      obtain rfl := Except.ok.inj (result.symm.trans done)
      rw [if_neg (not_not.mpr same), List.append_nil]

/-- The loop over `dirnames` collects the names on other devices. -/
theorem toRemove_eq {filled : Crawl} {looked : List FileName × Crawl}
    (done : (dirnames directory child).foldlM (lookAt topdev directory child dirpath) ([], filled) =
      .ok looked) : looked.1 = elsewhere topdev directory child := by
  have collected := foldlM_collects (fun _ _ _ _ round => lookAt_toRemove round) done
  have filtered := flatMap_ite (fun name => (child name).device ≠ topdev) id (dirnames directory child)
  exact collected.trans (filtered.trans (List.map_id _))

/-- The loop over `dirnames` prints a line for each name that it collects. -/
theorem foldlM_lookAt_logs (filled : Crawl) :
    Logs (fun looked => looked.2.events) (fun error : CrawlError => error.2.events) filled.events
      ((elsewhere topdev directory child).map
        fun name => .act (.print (differentFilesystem (joinName dirpath name))))
      ((dirnames directory child).foldlM (lookAt topdev directory child dirpath) ([], filled)) := by
  rw [elsewhere, ← flatMap_ite]
  exact foldlM_logs (fun name _ looked => lookAt_logs looked name) ([], filled)

/-- Without the names on other devices those on the device are left. -/
theorem foldl_erase_elsewhere (topdev : Nat) (directory : Directory FileName PyException)
    (child : FileName → ScanTree) :
    (elsewhere topdev directory child).foldl List.erase (dirnames directory child) =
      (dirnames directory child).filter (onDevice topdev directory child) := by
  have unique : (dirnames directory child).Nodup := directory.unique.filter _
  rw [← List.diff_eq_foldl]
  refine unique.sdiff_eq_filter.trans (List.filter_congr ?_)
  intro name member
  simp [elsewhere, onDevice, member]

/-- The body emits the events of the directory. -/
theorem crawlBody_logs (world : CrawlWorld) (topdev : Nat) (directory : Directory FileName PyException)
    (child : FileName → ScanTree) (top : Str × List FileName) (crawl : Crawl) :
    Logs (fun result => result.2.events) (fun error : CrawlError => error.2.events) crawl.events
      (emits world.cwd topdev directory child top)
      (crawlBody world topdev directory child top (dirnames directory child) (filenames directory child)
        crawl) := by
  refine Logs.later rfl ((crawlFilenames_logs _ _).append ?_)
  intro filled _
  refine (foldlM_lookAt_logs filled).append ?_
  intro looked collected
  rw [← toRemove_eq collected]
  unfold leave
  dsimp only
  split
  · exact ⟨_, List.prefix_rfl, rfl⟩
  · rfl

/-- The body leaves the directories on the device. -/
theorem crawlBody_kept {top : Str × List FileName} {crawl after : Crawl} {left : List FileName}
    (done : crawlBody world topdev directory child top (dirnames directory child)
      (filenames directory child) crawl = .ok (left, after)) :
    left = (dirnames directory child).filter (onDevice topdev directory child) := by
  obtain ⟨filled, _, looked⟩ := exists_of_bind done
  obtain ⟨looked, collected, leaves⟩ := exists_of_bind looked
  unfold leave at leaves
  dsimp only at leaves
  split at leaves
  · cases leaves
  · obtain ⟨rfl, _⟩ := Prod.mk.inj (Except.ok.inj leaves)
    rw [toRemove_eq collected, foldl_erase_elsewhere]

end Body

/-- This is the log of a gathering that runs to its end. -/
def wholeLog (cwd path : Str) (tree : ScanTree) : List CrawlEvent :=
  (tree.preorder (onDevice tree.device)).flatMap fun listing =>
    emits cwd tree.device listing.directory listing.child (pathOf path listing.names, listing.names)

theorem foldl_joinNames (path : Str) (before names : List FileName) :
    names.foldl joinNames (path, before) = (pathOf path names, before ++ names) := by
  induction names generalizing path before with
  | nil => rw [List.append_nil]; rfl
  | cons name names ih =>
      rw [List.foldl_cons, joinNames, ih, List.append_assoc]
      rfl

theorem crawl_logs (world : CrawlWorld) (q : FinishableQueue Str) (path : Str) (start : StartPath) :
    Logs events (fun error : CrawlError => error.2.events) [] (wholeLog world.cwd path start.tree)
      (crawlDirectory world q path start) := by
  have logs := walk_logs joinNames (fun _ _ _ _ _ _ done => crawlBody_kept done)
    (fun directory child top crawl => crawlBody_logs world start.tree.device directory child top crawl)
    start.tree (path, []) ⟨q, []⟩
  simp only [foldl_joinNames, List.nil_append] at logs
  exact logs

/-- However the gathering ends, its events begin the whole log. -/
theorem events_prefix (world : CrawlWorld) (q : FinishableQueue Str) (path : Str) (start : StartPath) :
    (ended (crawlDirectory world q path start)).events <+: wholeLog world.cwd path start.tree := by
  have logs := crawl_logs world q path start
  cases result : crawlDirectory world q path start with
  | ok crawl =>
      rw [result] at logs
      exact logs ▸ List.prefix_rfl
  | error raised =>
      rw [result] at logs
      obtain ⟨stop, crawl⟩ := raised
      obtain ⟨part, starts, logged⟩ := logs
      change crawl.events = part at logged
      exact logged ▸ starts

section Positions

/-- The walk visits only directories on the device. -/
theorem reaches_of_visits (visits : tree.Visits (Keeps topdev) names directory child)
    (begins : tree.device = topdev) :
    Reaches topdev tree names (.dir directory child) ∧ directory.device = topdev := by
  induction visits with
  | here _ => exact ⟨.here _, begins⟩
  | inside _ kept _ ih =>
      obtain ⟨reaches, same⟩ := ih kept.2.2
      exact ⟨.inside begins kept.1 reaches, same⟩

theorem reaches_snoc {name : FileName} (reaches : Reaches topdev tree names (.dir directory child))
    (same : directory.device = topdev) (member : name ∈ directory.names) :
    Reaches topdev tree (names ++ [name]) (child name) := by
  generalize position : FileTree.dir directory child = last at reaches
  induction reaches with
  | here _ =>
      subst position
      exact .inside same member (.here _)
  | inside above inside _ ih => exact .inside above inside (ih position)

/-- What lies below a position is reached from the entry there. -/
theorem reaches_below {above below : List FileName} {position : ScanTree}
    (first : Reaches topdev tree above position) (reaches : Reaches topdev tree (above ++ below) entry) :
    Reaches topdev position below entry := by
  induction first with
  | here _ => exact reaches
  | inside _ _ _ ih =>
      cases reaches with
      | inside _ _ reaches => exact ih reaches

/-- No directory on the device lies at or below an entry on another device. -/
theorem not_reaches_elsewhere {above below : List FileName} {position : ScanTree}
    (first : Reaches topdev tree above position) (different : position.device ≠ topdev)
    (reaches : Reaches topdev tree (above ++ below) (.dir directory child))
    (same : directory.device = topdev) : False := by
  have inside := reaches_below first reaches
  cases below with
  | nil =>
      cases inside
      exact different same
  | cons name below => exact different (reaches_device inside).2

/-- The listed directories of the order are reached on the device. -/
theorem listing_reaches {listing : Listing FileName PyException}
    (member : listing ∈ tree.preorder (onDevice tree.device)) :
    Reaches tree.device tree listing.names (.dir listing.directory listing.child) ∧
      listing.directory.device = tree.device := by
  have visits := mem_preorder.mp member
  simp only [onDevice, decide_eq_true_eq] at visits
  exact reaches_of_visits visits rfl

end Positions

/-- Every path that is put belongs to an entry that the walk takes for a file, below directories on the
device of the start path. Every directory that is listed is on it, and so are those above. A directory
that is pruned is on another device, and nothing at or below it is listed. No path is put twice. -/
structure OneFilesystem (cwd path : Str) (tree : ScanTree) (crawl : Crawl) : Prop where
  puts : ∀ fullpath, .put fullpath ∈ crawl.acts → ∃ names entry, names ≠ [] ∧
    Reaches tree.device tree names entry ∧ entry.isDir = false ∧
    fullpath = pathMarks.abspath cwd (pathOf path names)
  listed : ∀ names, .listed names ∈ crawl.events → ∃ directory child,
    Reaches tree.device tree names (.dir directory child) ∧ directory.device = tree.device
  pruned : ∀ above, .pruned above ∈ crawl.events →
    (∃ entry, Reaches tree.device tree above entry ∧ entry.isDir = true ∧ entry.device ≠ tree.device) ∧
      ∀ below, .listed (above ++ below) ∉ crawl.events
  once : (putPaths crawl.acts).Nodup

section Log

variable {cwd path : Str} {q : FinishableQueue Str}

/-- The files of a directory are reached on the device. -/
theorem put_reaches {fullpath : Str} (member : .act (.put fullpath) ∈ wholeLog cwd path tree) :
    ∃ names entry, names ≠ [] ∧ Reaches tree.device tree names entry ∧ entry.isDir = false ∧
      fullpath = pathMarks.abspath cwd (pathOf path names) := by
  obtain ⟨listing, listed, member⟩ := List.mem_flatMap.mp member
  obtain ⟨reaches, same⟩ := listing_reaches listed
  simp only [emits, filenames, List.mem_append, List.mem_cons, List.not_mem_nil, List.mem_map,
    List.mem_filter, reduceCtorEq, CrawlEvent.act.injEq, GatherAct.put.injEq, and_false, exists_false,
    false_or, or_false] at member
  obtain ⟨name, ⟨inside, noDir⟩, rfl⟩ := member
  refine ⟨listing.names ++ [name], listing.child name, List.append_ne_nil_of_right_ne_nil _
    (List.cons_ne_nil _ _), reaches_snoc reaches same inside, by simpa using noDir, ?_⟩
  rw [pathOf_snoc]

theorem listed_reaches (member : .listed names ∈ wholeLog cwd path tree) : ∃ directory child,
    Reaches tree.device tree names (.dir directory child) ∧ directory.device = tree.device := by
  obtain ⟨listing, listed, member⟩ := List.mem_flatMap.mp member
  simp only [emits, List.mem_append, List.mem_cons, List.not_mem_nil, List.mem_map, reduceCtorEq,
    CrawlEvent.listed.injEq, and_false, exists_false, or_false] at member
  exact ⟨listing.directory, listing.child, member ▸ listing_reaches listed⟩

theorem pruned_reaches (member : .pruned names ∈ wholeLog cwd path tree) :
    ∃ entry, Reaches tree.device tree names entry ∧ entry.isDir = true ∧ entry.device ≠ tree.device := by
  obtain ⟨listing, listed, member⟩ := List.mem_flatMap.mp member
  obtain ⟨reaches, same⟩ := listing_reaches listed
  simp only [emits, elsewhere, dirnames, List.mem_append, List.mem_cons, List.not_mem_nil, List.mem_map,
    List.mem_filter, reduceCtorEq, CrawlEvent.pruned.injEq, and_false, exists_false, false_or, or_false,
    decide_eq_true_eq] at member
  obtain ⟨name, ⟨⟨inside, isDir⟩, different⟩, rfl⟩ := member
  exact ⟨listing.child name, reaches_snoc reaches same inside, isDir, different⟩

theorem acts_append (first second : List CrawlEvent) :
    acts ⟨q, first ++ second⟩ = acts ⟨q, first⟩ ++ acts ⟨q, second⟩ := List.filterMap_append

theorem acts_pruned (above names : List FileName) :
    acts ⟨q, names.map fun name => .pruned (above ++ [name])⟩ = [] := by
  induction names with
  | nil => rfl
  | cons name names ih => exact ih

/-- A directory puts its files. -/
theorem putPaths_emits (cwd : Str) (topdev : Nat) (directory : Directory FileName PyException)
    (child : FileName → ScanTree) (top : Str × List FileName) :
    putPaths (acts ⟨q, emits cwd topdev directory child top⟩) =
      (filenames directory child).map fun name => pathMarks.abspath cwd (joinName top.1 name) := by
  have puts : ∀ names : List FileName, putPaths (acts ⟨q, names.map fun name =>
      .act (.put (pathMarks.abspath cwd (joinName top.1 name)))⟩) =
        names.map fun name => pathMarks.abspath cwd (joinName top.1 name) := by
    intro names
    induction names with
    | nil => rfl
    | cons name names ih => exact congrArg (List.cons _) ih
  have prints : ∀ names : List FileName, putPaths (acts ⟨q, names.map fun name =>
      .act (.print (differentFilesystem (joinName top.1 name)))⟩) = [] := by
    intro names
    induction names with
    | nil => rfl
    | cons name names ih => exact ih
  have first : acts ⟨q, [.listed top.2]⟩ = [] := rfl
  rw [emits, acts_append, acts_append, acts_append, first, acts_pruned, List.nil_append, List.append_nil,
    putPaths_append, puts, prints, List.append_nil]

/-- The puts of the whole log belong to the files in the order of the walk. -/
theorem putPaths_wholeLog (cwd path : Str) (tree : ScanTree) :
    putPaths (acts ⟨q, wholeLog cwd path tree⟩) =
      ((tree.preorder (onDevice tree.device)).flatMap fun listing =>
        (filenames listing.directory listing.child).map fun name => listing.names ++ [name]).map
          fun names => pathMarks.abspath cwd (pathOf path names) := by
  unfold wholeLog
  induction tree.preorder (onDevice tree.device) with
  | nil => rfl
  | cons listing listings ih =>
      rw [List.flatMap_cons, acts_append, putPaths_append, ih, putPaths_emits, List.flatMap_cons,
        List.map_append, List.map_map]
      simp only [pathOf_snoc, Function.comp_def]

/-- Different files have different paths. -/
theorem once_wholeLog (cwd path : Str) (tree : ScanTree) :
    (putPaths (acts ⟨q, wholeLog cwd path tree⟩)).Nodup := by
  rw [putPaths_wholeLog]
  refine List.Nodup.map (fun _ _ same => abspath_pathOf_injective same) (List.nodup_flatMap.mpr ⟨?_, ?_⟩)
  · intro listing _
    exact (listing.directory.unique.filter _).map fun _ _ same => List.cons.inj (List.append_cancel_left same) |>.1
  · have ordered := List.pairwise_map.mp (preorder_nodup (onDevice tree.device) tree)
    refine ordered.imp ?_
    intro first second different names left right
    obtain ⟨_, _, rfl⟩ := List.mem_map.mp left
    obtain ⟨_, _, same⟩ := List.mem_map.mp right
    exact different (List.append_inj_left' same rfl).symm

end Log

/-- The gathering stays on the filesystem of its start path and puts no path twice, for every tree and
every queue, also if it raises or is cancelled. -/
theorem one_filesystem (world : CrawlWorld) (q : FinishableQueue Str) (path : Str) (start : StartPath) :
    OneFilesystem world.cwd path start.tree (ended (crawlDirectory world q path start)) := by
  have begins := events_prefix world q path start
  generalize ended (crawlDirectory world q path start) = crawl at begins
  refine ⟨?_, fun names member => listed_reaches (begins.subset member), ?_, ?_⟩
  · intro fullpath member
    obtain ⟨event, member, same⟩ := List.mem_filterMap.mp member
    cases event with
    | act act =>
        obtain rfl := Option.some.inj same
        exact put_reaches (begins.subset member)
    | listed names => cases same
    | pruned names => cases same
  · intro above member
    obtain ⟨entry, reaches, isDir, different⟩ := pruned_reaches (begins.subset member)
    refine ⟨⟨entry, reaches, isDir, different⟩, ?_⟩
    intro below listed
    obtain ⟨directory, child, inside, same⟩ := listed_reaches (begins.subset listed)
    exact not_reaches_elsewhere reaches different inside same
  · exact ((begins.filterMap _).filterMap _).sublist.nodup (once_wholeLog (q := q) world.cwd path start.tree)

/-- A crawl has the queue and the acts of a gathering. -/
def Records (crawl : Crawl) (gathering : Gathering) : Prop :=
  crawl.q = gathering.q ∧ crawl.acts = gathering.acts

def Raises (error : CrawlError) (raised : GatherError) : Prop := error.1 = .raised raised

theorem put_agrees {crawl : Crawl} {gathering : Gathering} (records : Records crawl gathering)
    (fullpath : Str) : Agrees Raises Records (crawl.put fullpath) (gathering.put fullpath) := by
  obtain ⟨queue, acts⟩ := records
  unfold Crawl.put Gathering.put
  rw [queue]
  cases outcome : gathering.q.put fullpath with
  | mk result q =>
      cases result with
      | error raised => exact (rfl : CrawlStop.raised _ = _)
      | ok done => exact ⟨rfl, by rw [← acts]; exact acts_append _ _⟩

/-- A round collects the same names and prints the same line. -/
theorem lookAt_agrees {looked : List FileName × Crawl} {collected : List FileName × Gathering}
    {dirpath : Str} {name : FileName} (same : looked.1 = collected.1)
    (records : Records looked.2 collected.2) :
    Agrees Raises (fun first second => first.1 = second.1 ∧ Records first.2 second.2)
      (lookAt topdev directory child dirpath looked name)
      ((lstatDevice directory child name).map fun device =>
        if device ≠ topdev then (collected.1 ++ [name],
          collected.2.print (differentFilesystem (joinName dirpath name))) else collected) := by
  unfold lookAt
  cases lstatDevice directory child name with
  | error raised => exact (rfl : CrawlStop.raised _ = _)
  | ok device =>
      change Agrees _ _ (if _ then _ else _) (.ok (if _ then _ else _))
      split
      · refine ⟨congrArg (· ++ [name]) same, records.1, ?_⟩
        change acts ⟨_, looked.2.events ++ _⟩ = collected.2.acts ++ _
        rw [acts_append, ← records.2]
        rfl
      · exact ⟨same, records⟩

theorem crawlFilenames_agrees {crawl : Crawl} {gathering : Gathering} (records : Records crawl gathering)
    (cwd dirpath : Str) (filenames : List FileName) :
    Agrees Raises Records (crawlFilenames cwd dirpath filenames crawl)
      (putFilenames cwd dirpath filenames gathering) := by
  unfold crawlFilenames putFilenames
  apply foldlM_agrees _ records
  exact fun _ _ _ _ held => put_agrees held _

theorem collectToRemove_agrees {crawl : Crawl} {gathering : Gathering} (records : Records crawl gathering)
    (dirpath : Str) (dirnames : List FileName) :
    Agrees Raises (fun first second => first.1 = second.1 ∧ Records first.2 second.2)
      (dirnames.foldlM (lookAt topdev directory child dirpath) ([], crawl))
      (collectToRemove topdev directory child dirpath dirnames gathering) := by
  unfold collectToRemove
  apply foldlM_agrees
  · exact fun _ _ _ _ held => lookAt_agrees held.1 held.2
  · exact ⟨rfl, records⟩

/-- Without cancellations the record agrees with the gathering. -/
theorem crawl_agrees {world : CrawlWorld} (undisturbed : ∀ dirpath, world.cancelled dirpath = false)
    (q : FinishableQueue Str) (path : Str) (start : StartPath) :
    Agrees Raises Records (crawlDirectory world q path start)
      (enqueueDirectory world.toGatherWorld q path start) := by
  refine walk_agrees (fun top place => top.1 = place) ?_ ?_ start.tree rfl ⟨rfl, rfl⟩
  · intro top place name same
    rw [← same]
    rfl
  · intro directory child top place crawl gathering same records
    subst same
    have begins : Records (crawl.record (.listed top.2)) gathering :=
      ⟨records.1, (acts_append _ _).trans ((List.append_nil _).trans records.2)⟩
    refine (crawlFilenames_agrees begins world.cwd top.1 (filenames directory child)).bind ?_
    intro filled gathered held
    refine (collectToRemove_agrees held top.1 (dirnames directory child)).map ?_
    intro looked collected both
    obtain ⟨same, held⟩ := both
    unfold leave
    rw [undisturbed, if_neg Bool.false_ne_true, same]
    refine ⟨rfl, congrArg _ held.1, ?_⟩
    change acts ⟨_, looked.2.events ++ _⟩ = collected.2.acts
    rw [acts_append, ← held.2]
    exact (congrArg _ (acts_pruned _ _)).trans (List.append_nil _)

end Crawl

end ClamavDbscan
