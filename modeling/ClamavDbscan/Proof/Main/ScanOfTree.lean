import ClamavDbscan.Proof.Main.OneFilesystem
import ClamavDbscan.Proof.Main.WholeScan

/-
This file proves what a whole scan does with the files of a tree.
-/

namespace ClamavDbscan

open Transition

namespace Crawl

open FileTree Gathering

variable {tree : ScanTree} {names : List FileName}

/-- The files of the walk come in this order. -/
def walkedFiles (tree : ScanTree) : List (List FileName) :=
  (tree.preorder (onDevice tree.device)).flatMap fun listing =>
    (filenames listing.directory listing.child).map fun name => listing.names ++ [name]

/-- The gathering puts these paths, and it sleeps after each directory. -/
def walkedDirectories (cwd path : Str) (tree : ScanTree) : List (List Str) :=
  (tree.preorder (onDevice tree.device)).map fun listing =>
    (filenames listing.directory listing.child).map fun name =>
      pathMarks.abspath cwd (pathOf path (listing.names ++ [name]))

theorem flatten_walkedDirectories (cwd path : Str) (tree : ScanTree) :
    (walkedDirectories cwd path tree).flatten =
      (walkedFiles tree).map fun names => pathMarks.abspath cwd (pathOf path names) := by
  rw [walkedDirectories, walkedFiles, ← List.flatMap_def, List.map_flatMap]
  simp only [List.map_map, Function.comp_def]

theorem mem_walkedFiles : names ∈ walkedFiles tree ↔ Walked tree.device tree names := by
  have visited (listing : Listing FileName PyException) :
      listing ∈ tree.preorder (onDevice tree.device) ↔
        tree.Visits (Keeps tree.device) listing.names listing.directory listing.child := by
    rw [mem_preorder]
    simp only [onDevice, decide_eq_true_eq]
    rfl
  simp only [walkedFiles, List.mem_flatMap, List.mem_map, filenames, List.mem_filter,
    Bool.not_eq_true']
  constructor
  · rintro ⟨listing, listed, name, ⟨member, noDir⟩, rfl⟩
    exact ⟨listing.names, listing.directory, listing.child, (visited listing).mp listed, name, member,
      noDir, rfl⟩
  · rintro ⟨before, directory, child, visits, name, member, noDir, rfl⟩
    exact ⟨⟨before, directory, child⟩, (visited ⟨before, directory, child⟩).mpr visits, name,
      ⟨member, noDir⟩, rfl⟩

/-- A gathering that returns has put the files of the walk in their order. -/
theorem putPaths_gathered {world : GatherWorld} {q : FinishableQueue Str} {path : Str}
    {start : StartPath} {gathering : Gathering}
    (gathered : enqueueDirectory world q path start = .ok gathering) :
    putPaths gathering.acts = (walkedDirectories world.cwd path start.tree).flatten := by
  have agrees : Agrees Raises Records (crawlDirectory ⟨world, fun _ => false⟩ q path start)
      (enqueueDirectory world q path start) := crawl_agrees (fun _ => rfl) q path start
  have logs := crawl_logs ⟨world, fun _ => false⟩ q path start
  rw [gathered] at agrees
  cases crawled : crawlDirectory ⟨world, fun _ => false⟩ q path start with
  | error raised =>
      rw [crawled] at agrees
      exact agrees.elim
  | ok crawl =>
      rw [crawled] at agrees logs
      obtain ⟨_, same⟩ : Records crawl gathering := agrees
      obtain ⟨queue, events⟩ := crawl
      obtain rfl : events = wholeLog world.cwd path start.tree := logs
      rw [← same, putPaths_wholeLog, flatten_walkedDirectories]
      rfl

theorem nodup_walkedDirectories (cwd path : Str) (tree : ScanTree) :
    (walkedDirectories cwd path tree).flatten.Nodup := by
  have once := once_wholeLog (q := .initial) cwd path tree
  rw [putPaths_wholeLog] at once
  rw [flatten_walkedDirectories]
  exact once

end Crawl

namespace Program

open Crawl Gathering ScanLoop

variable {κ : Type} {clamd : Clamd κ} {files : Files} {past : List (Program κ × Label κ)} {last : Program κ}
  {world : GatherWorld} {q : FinishableQueue Str} {path : Str} {start : StartPath} {gathering : Gathering}
  {maxScans : Int}

/-- The program scans the files of the tree that the walk reaches. -/
def treeConfig (maxScans : Int) (cwd path : Str) (tree : ScanTree) : ProgramConfig :=
  ⟨maxScans, false, walkedDirectories cwd path tree⟩

/-- Every walked file has a fresh scan with a record. -/
def WalkScannable (clamd : Clamd κ) (disk : Disk κ) (cwd path : Str) (tree : ScanTree) : Prop :=
  ∀ names, Walked tree.device tree names →
    Handled (freshScan clamd disk (pathMarks.abspath cwd (pathOf path names)))

/-- The gathering and the program agree on the paths, which are those of the walked files and differ from
each other. The scan of them is complete when it returns, and it can go on until then, if each file has a fresh scan
with a record and the clock advances. -/
structure ScanOfTree (clamd : Clamd κ) (files : Files) (maxScans : Int) (cwd path : Str) (tree : ScanTree)
    (gathering : Gathering) (past : List (Program κ × Label κ)) (last : Program κ) : Prop where
  order : putPaths gathering.acts = (walkedFiles tree).map fun names => pathMarks.abspath cwd (pathOf path names)
  walked : ∀ names, names ∈ walkedFiles tree ↔ Walked tree.device tree names
  once : (putPaths gathering.acts).Nodup
  bounded : past.length ≤ 1 + (walkedDirectories cwd path tree).length + 7 * (walkedFiles tree).length
  goesOn : WalkScannable clamd last.session.disk cwd path tree → Meets ClockAdvances past →
    last.loop.control = .returned ∨
      ∃ label after, step (treeConfig maxScans cwd path tree) clamd last label = some after ∧
        Undisturbed last label ∧ ClockAdvances last label
  complete : last.loop.control = .returned → ∃ records, records.Perm last.loop.written ∧
    List.Forall₂ (fun names => Tells clamd last.session.disk (pathMarks.abspath cwd (pathOf path names)))
      (walkedFiles tree) records
  table : last.loop.control = .returned →
    UpToDate clamd last.session.disk files last.session.watch.files (putPaths gathering.acts)

/-- A scan of a tree that nothing disturbs takes a bounded number of steps. When it returns each file that the walk
reaches has exactly one record, with the verdict of a fresh scan, and the table is up to date. -/
theorem scan_of_tree (positive : 1 ≤ maxScans)
    (gathered : enqueueDirectory world q path start = .ok gathering)
    (run : Run (system (treeConfig maxScans world.cwd path start.tree) clamd files) past last)
    (undisturbed : Meets Undisturbed past) (table : TrueTable clamd last.session.disk files) :
    ScanOfTree clamd files maxScans world.cwd path start.tree gathering past last := by
  have order := putPaths_gathered gathered
  have flat := flatten_walkedDirectories world.cwd path start.tree
  have scan := whole_scan positive rfl run undisturbed table
  refine ⟨order.trans flat, fun names => mem_walkedFiles, ?_, ?_, fun scannable => scan.goesOn ?_, ?_, ?_⟩
  · rw [order]
    exact nodup_walkedDirectories _ _ _
  · have bounded := scan.bounded
    change past.length ≤ 1 + _ + 7 * (walkedDirectories world.cwd path start.tree).flatten.length at bounded
    rwa [flat, List.length_map] at bounded
  · intro fullpath member
    change fullpath ∈ (walkedDirectories world.cwd path start.tree).flatten at member
    rw [flat] at member
    obtain ⟨names, listed, rfl⟩ := List.mem_map.mp member
    exact scannable names (mem_walkedFiles.mp listed)
  · intro returned
    obtain ⟨records, written, tells⟩ := scan.complete returned
    refine ⟨records, written, ?_⟩
    change List.Forall₂ _ (walkedDirectories world.cwd path start.tree).flatten records at tells
    rw [flat] at tells
    exact List.forall₂_map_left_iff.mp tells
  · intro returned
    rw [order]
    exact scan.table returned

/-- A directory has one file in it. -/
def singleStart : StartPath :=
  .dir ⟨1, [nameA], List.nodup_singleton nameA, true, none⟩ fun _ => .file 1

theorem singleStart_directories :
    walkedDirectories (text "/") (text "/") singleStart.tree = [[text "/a"]] := by
  decide

/-- The file of a directory is scanned, and it is found infected. -/
theorem scan_of_tree_single : ∃ (gathering : Gathering) (past : List (Program Bool × Label Bool))
    (last : Program Bool), last.loop.control = .returned ∧
      ScanOfTree Session.exampleClamd (fun _ => none) 1 (text "/") (text "/") singleStart.tree gathering
        past last := by
  have begins := exampleStart_run 1 false [[text "/a"]]
  rw [← singleStart_directories] at begins
  have run := begins.follow [.gather, .scanFiles, .advance 0 [], .advance 0 [], .advance 0 [],
    .read 0, .advance 0 [], .resume [(.scan 0, 1)]] rfl
  have gathered : enqueueDirectory ⟨text "/", fun _ q => q⟩ .initial (text "/") singleStart =
      .ok ⟨(FinishableQueue.initial.put (text "/a")).2, [.put (text "/a")]⟩ := rfl
  have scanned := scan_of_tree (by decide) gathered run (by
      repeat refine (meets_cons _ _ _).mpr ⟨by decide +kernel, ?_⟩
      exact meets_nil _) (fun _ _ _ stored => by cases stored)
  exact ⟨_, _, _, rfl, scanned⟩

end Program

end ClamavDbscan
