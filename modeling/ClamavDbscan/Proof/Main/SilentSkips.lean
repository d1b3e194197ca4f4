import ClamavDbscan.Construction.Main.EnqueueDirectory

/-
This file decides when the gathering of files skips no part of the tree silently.
-/

namespace ClamavDbscan

def StartPath.IsDirectory (start : StartPath) : Prop := ∃ directory child, start = .dir directory child

namespace Gathering

variable {world : GatherWorld} {topdev : Nat} {links : Bool} {path : Str}

/-- The entry lies at these names, and all directories above it are on the device. -/
inductive Reaches (topdev : Nat) : ScanTree → List FileName → ScanTree → Prop
  | here (tree : ScanTree) : Reaches topdev tree [] tree
  | inside {directory : Directory FileName PyException} {child : FileName → ScanTree}
      {name : FileName} {names : List FileName} {entry : ScanTree} :
      directory.device = topdev → name ∈ directory.names → Reaches topdev (child name) names entry →
      Reaches topdev (.dir directory child) (name :: names) entry

/-- Every entry but a directory counts. The walk lists a link to a directory among the directories,
and the results hold with and without these links. -/
def counts (links : Bool) : ScanTree → Bool
  | .file _ => true
  | .link _ isDir => links || !isDir
  | .dir _ _ => false

def pathOf (path : Str) (names : List FileName) : Str := names.foldl joinName path

/-- The path of the entry has been put into the queue, or a line names a directory above it. -/
def Accounted (world : GatherWorld) (path : Str) (after : Gathering) (names : List FileName) : Prop :=
  .put (pathMarks.abspath world.cwd (pathOf path names)) ∈ after.acts ∨
    ∃ above below, names = above ++ below ∧ below ≠ [] ∧
      .print (differentFilesystem (pathOf path above)) ∈ after.acts

/-- Every entry that counts is accounted for. -/
def NothingSkipped (links : Bool) (world : GatherWorld) (path : Str) (tree : ScanTree)
    (after : Gathering) : Prop :=
  ∀ names entry, Reaches tree.device tree names entry → counts links entry = true →
    Accounted world path after names

/-- No entry on the device counts. -/
def Hollow (links : Bool) (topdev : Nat) : ScanTree → Prop
  | .file _ => False
  | .link _ isDir => links = false ∧ isDir = true
  | .dir directory child =>
      directory.device = topdev → ∀ name ∈ directory.names, Hollow links topdev (child name)

/-- On the device only hollow directories cannot be listed, and no link to a directory counts. -/
def Exposed (links : Bool) (topdev : Nat) : ScanTree → Prop
  | .file _ => True
  | .link _ isDir => links = true → isDir = false
  | .dir directory child =>
      directory.device = topdev → ∀ name ∈ directory.names,
        if directory.listable then Exposed links topdev (child name)
        else Hollow links topdev (child name)

/-- The walk descends into the directories on the device. -/
def Keeps (topdev : Nat) (directory : Directory FileName PyException) (child : FileName → ScanTree)
    (name : FileName) : Prop :=
  name ∈ directory.names ∧ (child name).isDir = true ∧ (child name).device = topdev

/-- These acts come from the files of a directory and from its entries on other devices. -/
def Adds (world : GatherWorld) (topdev : Nat) (act : GatherAct)
    (directory : Directory FileName PyException) (child : FileName → ScanTree) (dirpath : Str) : Prop :=
  (∃ name ∈ directory.names, (child name).isDir = false ∧
      act = .put (pathMarks.abspath world.cwd (joinName dirpath name))) ∨
    ∃ name ∈ directory.names, (child name).isDir = true ∧ (child name).device ≠ topdev ∧
      act = .print (differentFilesystem (joinName dirpath name))

section Body

variable {gathering after : Gathering} {act : GatherAct} {dirpath : Str}

theorem put_acts {fullpath : Str} (done : gathering.put fullpath = .ok after) :
    after.acts = gathering.acts ++ [.put fullpath] := by
  unfold Gathering.put at done
  split at done
  · obtain rfl := Except.ok.inj done
    rfl
  · contradiction

theorem putFilenames_acts {cwd : Str} {filenames : List FileName}
    (done : putFilenames cwd dirpath filenames gathering = .ok after) :
    act ∈ after.acts ↔ act ∈ gathering.acts ∨ ∃ name ∈ filenames,
      act = .put (pathMarks.abspath cwd (joinName dirpath name)) := by
  apply FileTree.foldlM_shows (fun state => act ∈ state.acts) _ _ done
  intro name _ state after round
  rw [put_acts round]
  simp

/-- A round of the loop over `dirnames` goes on only with the device of the entry. -/
theorem collect_round {directory : Directory FileName PyException} {child : FileName → ScanTree}
    {name : FileName} {toRemove kept : List FileName}
    (round : ((lstatDevice directory child name).map fun device =>
      if device ≠ topdev then
        (toRemove ++ [name], gathering.print (differentFilesystem (joinName dirpath name)))
      else (toRemove, gathering)) = .ok (kept, after)) :
    ((child name).device ≠ topdev ∧ kept = toRemove ++ [name] ∧
        after = gathering.print (differentFilesystem (joinName dirpath name))) ∨
      ((child name).device = topdev ∧ kept = toRemove ∧ after = gathering) := by
  unfold lstatDevice at round
  split at round
  · contradiction
  · have same := Except.ok.inj round
    dsimp only at same
    split at same
    · rename_i different
      obtain ⟨rfl, rfl⟩ := Prod.mk.inj same
      exact .inl ⟨different, rfl, rfl⟩
    · rename_i onDevice
      obtain ⟨rfl, rfl⟩ := Prod.mk.inj same
      exact .inr ⟨not_not.mp onDevice, rfl, rfl⟩

theorem collectToRemove_acts {directory : Directory FileName PyException}
    {child : FileName → ScanTree} {dirnames toRemove : List FileName}
    (done : collectToRemove topdev directory child dirpath dirnames gathering =
      .ok (toRemove, after)) :
    act ∈ after.acts ↔ act ∈ gathering.acts ∨ ∃ name ∈ dirnames, (child name).device ≠ topdev ∧
      act = .print (differentFilesystem (joinName dirpath name)) := by
  apply FileTree.foldlM_shows (fun state => act ∈ state.2.acts) _ _ done
  intro name _ state after round
  rcases collect_round round with ⟨different, _, printed⟩ | ⟨onDevice, _, same⟩
  · rw [printed]
    simp [Gathering.print, different]
  · rw [same]
    simp [onDevice]

theorem collectToRemove_removed {directory : Directory FileName PyException}
    {child : FileName → ScanTree} {dirnames toRemove : List FileName} {name : FileName}
    (done : collectToRemove topdev directory child dirpath dirnames gathering =
      .ok (toRemove, after)) :
    name ∈ toRemove ↔ name ∈ dirnames ∧ (child name).device ≠ topdev := by
  have shown := FileTree.foldlM_shows (fun state => name ∈ state.1)
    (fun other => (child other).device ≠ topdev ∧ name = other) (by
      intro other _ state after round
      rcases collect_round round with ⟨different, kept, _⟩ | ⟨onDevice, kept, _⟩
      · rw [kept]
        simp [different]
      · rw [kept]
        simp [onDevice]) done
  rw [shown]
  simp only [List.not_mem_nil, false_or]
  constructor
  · rintro ⟨other, member, different, rfl⟩
    exact ⟨member, different⟩
  · exact fun removed => ⟨name, removed.1, removed.2, rfl⟩

/-- Removing names one after the other leaves the others. -/
theorem mem_foldl_erase {dirnames : List FileName} (unique : dirnames.Nodup)
    (toRemove : List FileName) (name : FileName) :
    name ∈ toRemove.foldl List.erase dirnames ↔ name ∈ dirnames ∧ name ∉ toRemove := by
  rw [← List.diff_eq_foldl]
  exact unique.mem_sdiff_iff

/-- The body fills the queue, looks at the directories, and sleeps. -/
theorem gatherBody_ok {directory : Directory FileName PyException} {child : FileName → ScanTree}
    {dirnames filenames kept : List FileName}
    (done : gatherBody world topdev directory child dirpath dirnames filenames gathering =
      .ok (kept, after)) :
    ∃ filled looked toRemove, putFilenames world.cwd dirpath filenames gathering = .ok filled ∧
      collectToRemove topdev directory child dirpath dirnames filled = .ok (toRemove, looked) ∧
      kept = toRemove.foldl List.erase dirnames ∧
      after = { looked with q := world.others dirpath looked.q } := by
  obtain ⟨filled, files, rest⟩ := FileTree.exists_of_bind done
  change (collectToRemove topdev directory child dirpath dirnames filled).map _ = _ at rest
  cases collected : collectToRemove topdev directory child dirpath dirnames filled with
  | error raised =>
      rw [collected] at rest
      contradiction
  | ok result =>
      obtain ⟨toRemove, looked⟩ := result
      rw [collected] at rest
      obtain ⟨rfl, rfl⟩ := Prod.mk.inj (Except.ok.inj rest)
      exact ⟨filled, looked, toRemove, files, collected, rfl, rfl⟩

/-- The body leaves the directories on the device, and it adds the acts of its directory. -/
theorem gatherBody_spec (directory : Directory FileName PyException) (child : FileName → ScanTree)
    {dirnames : List FileName}
    (done : gatherBody world topdev directory child dirpath
      (directory.names.filter fun name => (child name).isDir)
      (directory.names.filter fun name => !(child name).isDir) gathering = .ok (dirnames, after)) :
    (∀ name, name ∈ dirnames ↔ Keeps topdev directory child name) ∧
      (act ∈ after.acts ↔ act ∈ gathering.acts ∨ Adds world topdev act directory child dirpath) := by
  obtain ⟨filled, looked, toRemove, files, collected, rfl, rfl⟩ := gatherBody_ok done
  constructor
  · intro name
    rw [mem_foldl_erase (directory.unique.filter _), collectToRemove_removed collected, Keeps,
      List.mem_filter]
    tauto
  · change act ∈ looked.acts ↔ _
    rw [collectToRemove_acts collected, putFilenames_acts files, or_assoc, Adds]
    simp only [List.mem_filter, Bool.not_eq_true', and_assoc]

end Body

section Walk

variable {q : FinishableQueue Str} {start : StartPath} {after : Gathering} {tree entry : ScanTree}
  {names : List FileName} {directory inner : Directory FileName PyException}
  {child grandchild : FileName → ScanTree}

/-- The walk puts the path at these names. -/
def Walked (topdev : Nat) (tree : ScanTree) (names : List FileName) : Prop :=
  ∃ before directory child, tree.Visits (Keeps topdev) before directory child ∧
    ∃ name ∈ directory.names, (child name).isDir = false ∧ names = before ++ [name]

/-- The gathering acts in the directories that it visits. -/
theorem acts_iff (gathered : enqueueDirectory world q path start = .ok after) (act : GatherAct) :
    act ∈ after.acts ↔ ∃ names directory child,
      start.tree.Visits (Keeps start.tree.device) names directory child ∧
        Adds world start.tree.device act directory child (pathOf path names) := by
  have shown := FileTree.walk_shows (Keeps start.tree.device) (fun state => act ∈ state.acts)
    (Adds world start.tree.device act)
    (fun directory child _ _ _ _ done => gatherBody_spec directory child done) gathered
  simpa [pathOf] using shown

theorem pathOf_eq (path : Str) (names : List FileName) :
    pathOf path names = pathMarks.descend path (names.map Subtype.val) := by
  rw [pathOf, PosixPath.Marks.descend, List.foldl_map]
  rfl

theorem valid_names (names : List FileName) : ∀ name ∈ names.map Subtype.val, pathMarks.Valid name := by
  intro name member
  obtain ⟨listed, _, rfl⟩ := List.mem_map.mp member
  exact listed.property

theorem pathOf_injective {first second : List FileName} (same : pathOf path first = pathOf path second) :
    first = second := by
  rw [pathOf_eq, pathOf_eq] at same
  have names := PosixPath.Marks.descend_injective (valid_names first) (valid_names second) same
  exact Subtype.val_injective.list_map names

theorem abspath_pathOf_injective {cwd : Str} {first second : List FileName}
    (same : pathMarks.abspath cwd (pathOf path first) = pathMarks.abspath cwd (pathOf path second)) :
    first = second := by
  rw [pathOf_eq, pathOf_eq] at same
  have names := PosixPath.Marks.abspath_injective (valid_names first) (valid_names second) same
  exact Subtype.val_injective.list_map names

theorem pathOf_snoc (path : Str) (names : List FileName) (name : FileName) :
    joinName (pathOf path names) name = pathOf path (names ++ [name]) := by
  rw [pathOf, pathOf, List.foldl_append]
  rfl

/-- A path is in the queue exactly if the walk puts it there. -/
theorem put_iff (gathered : enqueueDirectory world q path start = .ok after) :
    .put (pathMarks.abspath world.cwd (pathOf path names)) ∈ after.acts ↔
      Walked start.tree.device start.tree names := by
  rw [acts_iff gathered]
  constructor
  · rintro ⟨before, directory, child, visits, ⟨name, member, noDir, same⟩ | ⟨_, _, _, _, same⟩⟩
    · rw [pathOf_snoc] at same
      have put := abspath_pathOf_injective (GatherAct.put.inj same)
      exact ⟨before, directory, child, visits, name, member, noDir, put⟩
    · contradiction
  · rintro ⟨before, directory, child, visits, name, member, noDir, rfl⟩
    exact ⟨before, directory, child, visits, .inl ⟨name, member, noDir, by rw [pathOf_snoc]⟩⟩

theorem differentFilesystem_injective {first second : Str}
    (same : differentFilesystem first = differentFilesystem second) : first = second :=
  List.append_cancel_left (List.append_cancel_right same)

/-- Below a directory of the walk the entries are reached from that directory. -/
theorem reaches_visited (visits : tree.Visits (Keeps topdev) names directory child)
    {below : List FileName} (reaches : Reaches topdev tree (names ++ below) entry) :
    Reaches topdev (.dir directory child) below entry := by
  induction visits with
  | here _ => exact reaches
  | inside _ _ _ ih =>
      cases reaches with
      | inside _ _ reaches => exact ih reaches

/-- What is reached below a name lies in a directory on the device. -/
theorem reaches_device {name : FileName} (reaches : Reaches topdev tree (name :: names) entry) :
    tree.isDir = true ∧ tree.device = topdev := by
  cases reaches with
  | inside onDevice _ _ => exact ⟨rfl, onDevice⟩

/-- No line names a directory above an entry that is reached. -/
theorem not_named (gathered : enqueueDirectory world q path start = .ok after)
    {above below : List FileName} (more : below ≠ [])
    (reaches : Reaches start.tree.device start.tree (above ++ below) entry) :
    .print (differentFilesystem (pathOf path above)) ∉ after.acts := by
  intro printed
  obtain ⟨before, directory, child, visits, ⟨_, _, _, same⟩ | ⟨name, _, _, different, same⟩⟩ :=
    (acts_iff gathered _).mp printed
  · contradiction
  · have line := differentFilesystem_injective (GatherAct.print.inj same)
    rw [pathOf_snoc] at line
    obtain rfl := pathOf_injective line
    rw [List.append_assoc] at reaches
    cases reaches_visited visits reaches with
    | inside _ _ reaches =>
        obtain ⟨next, rest, rfl⟩ := List.exists_cons_of_ne_nil more
        exact different (reaches_device reaches).2

/-- The walk puts the files of a directory and what it puts below the directories on the device. -/
theorem walked_dir {name : FileName} : Walked topdev (.dir directory child) (name :: names) ↔
    directory.listable = true ∧ ((names = [] ∧ name ∈ directory.names ∧ (child name).isDir = false) ∨
      (Keeps topdev directory child name ∧ Walked topdev (child name) names)) := by
  constructor
  · rintro ⟨before, inner, grandchild, visits, file, member, noDir, same⟩
    cases visits with
    | here listed =>
        obtain ⟨rfl, rfl⟩ := List.cons.inj same
        exact ⟨listed, .inl ⟨rfl, member, noDir⟩⟩
    | inside listed kept visits =>
        obtain ⟨rfl, rfl⟩ := List.cons.inj same
        exact ⟨listed, .inr ⟨kept, _, _, _, visits, file, member, noDir, rfl⟩⟩
  · rintro ⟨listed, ⟨rfl, member, noDir⟩ | ⟨kept, before, inner, grandchild, visits, file, member, noDir, rfl⟩⟩
    · exact ⟨[], directory, child, .here listed, name, member, noDir, rfl⟩
    · exact ⟨name :: before, inner, grandchild, .inside listed kept visits, file, member, noDir, rfl⟩

theorem keeps_of_walked {name : FileName} (member : name ∈ directory.names)
    (reaches : Reaches topdev (child name) names entry) (walked : Walked topdev (child name) names) :
    Keeps topdev directory child name := by
  obtain ⟨before, _, _, _, file, _, _, rfl⟩ := walked
  obtain ⟨first, rest, same⟩ := List.exists_cons_of_ne_nil (List.append_ne_nil_of_right_ne_nil before
    (List.cons_ne_nil file []))
  rw [same] at reaches
  exact ⟨member, reaches_device reaches⟩

/-- A hollow tree is one where no entry that is reached counts. -/
theorem hollow_iff : Hollow links topdev tree ↔
    ∀ names entry, Reaches topdev tree names entry → counts links entry = false := by
  induction tree with
  | file device =>
      constructor
      · exact False.elim
      · intro none
        exact absurd (none [] _ (.here _)) (by simp [counts])
  | link device isDir =>
      constructor
      · intro hollow names entry reaches
        obtain ⟨rfl, rfl⟩ := hollow
        cases reaches
        rfl
      · intro none
        simpa [counts, Hollow] using none [] _ (.here _)
  | dir directory child ih =>
      constructor
      · intro hollow names entry reaches
        cases reaches with
        | here => rfl
        | inside onDevice member reaches => exact (ih _).mp (hollow onDevice _ member) _ _ reaches
      · intro none onDevice name member
        exact (ih name).mpr fun names entry reaches =>
          none (name :: names) entry (.inside onDevice member reaches)

/-- The entries that count are put exactly if the tree is exposed. -/
theorem exposed_iff : Exposed links topdev tree ↔
    ∀ names entry, Reaches topdev tree names entry → counts links entry = true →
      (names = [] ∧ tree.isDir = false) ∨ Walked topdev tree names := by
  induction tree with
  | file device =>
      constructor
      · intro _ names entry reaches _
        cases reaches
        exact .inl ⟨rfl, rfl⟩
      · exact fun _ => trivial
  | link device isDir =>
      constructor
      · intro exposed names entry reaches counted
        cases reaches
        refine .inl ⟨rfl, ?_⟩
        cases links <;> simp_all [counts, Exposed, FileTree.isDir]
      · intro put counted
        cases isDir with
        | false => rfl
        | true =>
            subst counted
            rcases put [] _ (.here _) rfl with ⟨_, noDir⟩ | ⟨_, _, _, visits, _⟩
            · exact noDir
            · cases visits
  | dir directory child ih =>
      constructor
      · intro exposed names entry reaches counted
        cases reaches with
        | here => contradiction
        | inside onDevice member reaches =>
            have below := exposed onDevice _ member
            split at below
            · rename_i listed
              refine .inr (walked_dir.mpr ⟨listed, ?_⟩)
              rcases (ih _).mp below _ _ reaches counted with ⟨last, noDir⟩ | walked
              · exact .inl ⟨last, member, noDir⟩
              · exact .inr ⟨keeps_of_walked member reaches walked, walked⟩
            · have skipped := hollow_iff.mp below _ _ reaches
              rw [counted] at skipped
              contradiction
      · intro put onDevice name member
        have walked : ∀ names entry, Reaches topdev (child name) names entry →
            counts links entry = true → Walked topdev (.dir directory child) (name :: names) := by
          intro names entry reaches counted
          rcases put _ _ (.inside onDevice member reaches) counted with ⟨none, _⟩ | walked
          · contradiction
          · exact walked
        split
        · refine (ih name).mpr ?_
          intro names entry reaches counted
          rcases (walked_dir.mp (walked names entry reaches counted)).2 with ⟨last, _, noDir⟩ | below
          · exact .inl ⟨last, noDir⟩
          · exact .inr below.2
        · rename_i unlisted
          refine hollow_iff.mpr ?_
          intro names entry reaches
          rw [Bool.eq_false_iff]
          intro counted
          exact unlisted (walked_dir.mp (walked names entry reaches counted)).1

/-- The gathering skips no entry silently exactly if the path is a directory that is exposed. -/
theorem nothing_skipped_iff (links : Bool) (gathered : enqueueDirectory world q path start = .ok after) :
    NothingSkipped links world path start.tree after ↔
      start.IsDirectory ∧ Exposed links start.tree.device start.tree := by
  have accounted : ∀ names entry, Reaches start.tree.device start.tree names entry →
      (Accounted world path after names ↔ Walked start.tree.device start.tree names) := by
    intro names entry reaches
    rw [← put_iff gathered]
    refine or_iff_left ?_
    intro named
    obtain ⟨above, below, rfl, more, printed⟩ := named
    exact not_named gathered more reaches printed
  constructor
  · intro nothing
    have walked : ∀ names entry, Reaches start.tree.device start.tree names entry →
        counts links entry = true → Walked start.tree.device start.tree names :=
      fun names entry reaches counted => (accounted names entry reaches).mp (nothing names entry reaches counted)
    cases start with
    | file device =>
        obtain ⟨_, _, _, visits, _⟩ := walked [] _ (.here _) rfl
        cases visits
    | dir directory child =>
        exact ⟨⟨directory, child, rfl⟩, exposed_iff.mpr fun names entry reaches counted =>
          .inr (walked names entry reaches counted)⟩
  · intro condition names entry reaches counted
    obtain ⟨⟨directory, child, rfl⟩, exposed⟩ := condition
    rw [accounted names entry reaches]
    rcases exposed_iff.mp exposed names entry reaches counted with ⟨_, noDir⟩ | walked
    · contradiction
    · exact walked

end Walk

/-- These are the paths that the gathering has put. -/
def putPaths (acts : List GatherAct) : List Str :=
  acts.filterMap fun
    | .put fullpath => some fullpath
    | .print _ => none

theorem putPaths_append (first second : List GatherAct) :
    putPaths (first ++ second) = putPaths first ++ putPaths second := List.filterMap_append

/-- The queue has had the puts of the gathering and nothing else. -/
def Holds (q : FinishableQueue Str) (gathering : Gathering) : Prop :=
  gathering.q = (putPaths gathering.acts).foldl (fun queue path => (queue.put path).2) q

theorem holds_put {q : FinishableQueue Str} {gathering after : Gathering} {fullpath : Str}
    (holds : Holds q gathering) (done : gathering.put fullpath = .ok after) : Holds q after := by
  unfold Gathering.put at done
  split at done
  · rename_i queue accepted
    obtain rfl := Except.ok.inj done
    change queue = (putPaths (gathering.acts ++ [.put fullpath])).foldl _ q
    rw [putPaths_append, List.foldl_append, ← holds]
    change queue = (gathering.q.put fullpath).2
    rw [accepted]
  · contradiction

theorem holds_print {q : FinishableQueue Str} {gathering : Gathering} (holds : Holds q gathering)
    (line : Str) : Holds q (gathering.print line) := by
  change gathering.q = (putPaths (gathering.acts ++ [.print line])).foldl _ q
  rw [putPaths_append]
  exact holds.trans (by rw [show putPaths [.print line] = [] from rfl, List.append_nil])

/-- If no other task runs, the queue holds what the gathering has put. -/
theorem gathered_queue {q : FinishableQueue Str} {start : StartPath} {after : Gathering}
    (alone : ∀ dirpath q, world.others dirpath q = q)
    (gathered : enqueueDirectory world q path start = .ok after) : Holds q after := by
  have begins : Holds q ⟨q, []⟩ := rfl
  apply FileTree.walk_keeps (Holds q) _ begins gathered
  intro directory child dirpath dirnames filenames gathering kept after holds done
  obtain ⟨filled, looked, toRemove, files, collected, rfl, rfl⟩ := gatherBody_ok done
  have filledHolds := FileTree.foldlM_keeps (Holds q) (fun _ _ _ _ held round => holds_put held round)
    holds files
  have lookedHolds : Holds q looked := by
    apply FileTree.foldlM_keeps (fun state => Holds q state.2) _ filledHolds collected
    intro name _ state after held round
    rcases collect_round round with ⟨_, _, printed⟩ | ⟨_, _, same⟩
    · rw [printed]
      exact holds_print held _
    · rw [same]
      exact held
  rw [alone]
  exact lookedHolds

theorem valid_a : pathMarks.Valid (text "a") := ⟨by decide, by decide, by decide, by decide⟩

theorem valid_b : pathMarks.Valid (text "b") := ⟨by decide, by decide, by decide, by decide⟩

def nameA : FileName := ⟨text "a", valid_a⟩

def nameB : FileName := ⟨text "b", valid_b⟩

theorem unique_names : [nameA, nameB].Nodup := by decide

/-- A directory holds a file and another filesystem. -/
def mountedTree : StartPath :=
  .dir ⟨1, [nameA, nameB], unique_names, true, none⟩ fun name =>
    if name = nameA then .file 1 else .dir ⟨2, [], .nil, true, none⟩ fun _ => .file 2

/-- The other filesystem is named, and the file is put. -/
theorem mounted_tree_gathered : ∃ after,
    enqueueDirectory ⟨text "/", fun _ q => q⟩ .initial (text "/s") mountedTree = .ok after ∧
      NothingSkipped true ⟨text "/", fun _ q => q⟩ (text "/s") mountedTree.tree after := by
  have gathered : enqueueDirectory ⟨text "/", fun _ q => q⟩ .initial (text "/s") mountedTree =
    .ok _ := rfl
  refine ⟨_, gathered, (nothing_skipped_iff true gathered).mpr ⟨⟨_, _, rfl⟩, ?_⟩⟩
  intro _ name member
  rcases List.mem_cons.mp member with rfl | member
  · exact trivial
  · obtain rfl := List.mem_singleton.mp member
    intro onDevice
    contradiction

/-- A file lies in a directory that cannot be listed. -/
def closedTree : StartPath :=
  .dir ⟨1, [nameA], List.nodup_singleton _, true, none⟩ fun _ =>
    .dir ⟨1, [nameB], List.nodup_singleton _, false, none⟩ fun _ => .file 1

/-- The gathering neither puts the file nor prints a line. -/
theorem closed_directory_skipped : ∃ after,
    enqueueDirectory ⟨text "/", fun _ q => q⟩ .initial (text "/s") closedTree = .ok after ∧
      ¬ NothingSkipped true ⟨text "/", fun _ q => q⟩ (text "/s") closedTree.tree after := by
  refine ⟨⟨.initial, []⟩, rfl, ?_⟩
  intro nothing
  have reaches : Reaches 1 closedTree.tree [nameA, nameB] (.file 1) :=
    .inside rfl List.mem_cons_self (.inside rfl List.mem_cons_self (.here _))
  rcases nothing _ _ reaches rfl with put | ⟨_, _, _, _, printed⟩
  · contradiction
  · contradiction

end Gathering

end ClamavDbscan
