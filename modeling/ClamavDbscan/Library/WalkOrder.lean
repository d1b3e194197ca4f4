import ClamavDbscan.Library.FileTree

/-
This file puts the directories of a walk in order and compares walks that end early.
-/

variable {ν ε φ ψ π ρ σ τ α β : Type*}

namespace FileTree

/-- A directory that a walk lists, and the names that lead to it. -/
structure Listing (ν ε : Type*) where
  names : List ν
  directory : Directory ν ε
  child : ν → FileTree ν ε

def Listing.under (name : ν) (listing : Listing ν ε) : Listing ν ε :=
  { listing with names := name :: listing.names }

/-- The names from which the walk makes its two lists. -/
def dirnames (directory : Directory ν ε) (child : ν → FileTree ν ε) : List ν :=
  directory.names.filter fun name => (child name).isDir

def filenames (directory : Directory ν ε) (child : ν → FileTree ν ε) : List ν :=
  directory.names.filter fun name => !(child name).isDir

/-- The directories come in this order if the walk descends into the names that are kept. -/
def preorder (keeps : Directory ν ε → (ν → FileTree ν ε) → ν → Bool) :
    FileTree ν ε → List (Listing ν ε)
  | .file _ | .link _ _ => []
  | .dir directory child =>
      if directory.listable then
        ⟨[], directory, child⟩ :: ((dirnames directory child).filter (keeps directory child)).flatMap
          fun name => (preorder keeps (child name)).map (.under name)
      else []

section Order

variable {keeps : Directory ν ε → (ν → FileTree ν ε) → ν → Bool} {tree : FileTree ν ε}

theorem preorder_dir {directory : Directory ν ε} {child : ν → FileTree ν ε}
    (listed : directory.listable = true) :
    preorder keeps (.dir directory child) =
      ⟨[], directory, child⟩ :: ((dirnames directory child).filter (keeps directory child)).flatMap
        fun name => (preorder keeps (child name)).map (.under name) := by
  rw [preorder, if_pos listed]

theorem preorder_unlisted {directory : Directory ν ε} {child : ν → FileTree ν ε}
    (unlisted : directory.listable = false) : preorder keeps (.dir directory child) = [] := by
  rw [preorder, if_neg (by rw [unlisted]; exact Bool.false_ne_true)]

/-- The directories in order are those that the walk visits. -/
theorem mem_preorder {listing : Listing ν ε} : listing ∈ tree.preorder keeps ↔
    tree.Visits (fun directory child name =>
      name ∈ directory.names ∧ (child name).isDir = true ∧ keeps directory child name = true)
      listing.names listing.directory listing.child := by
  induction tree generalizing listing with
  | file _ | link _ _ =>
      refine iff_of_false List.not_mem_nil ?_
      intro visits
      cases visits
  | dir directory child ih =>
      cases listed : directory.listable with
      | false =>
          rw [preorder_unlisted listed]
          exact iff_of_false List.not_mem_nil (not_visits_of_unlisted listed)
      | true =>
          rw [preorder_dir listed, List.mem_cons, List.mem_flatMap]
          constructor
          · rintro (rfl | ⟨name, member, below⟩)
            · exact .here listed
            · obtain ⟨inner, visited, rfl⟩ := List.mem_map.mp below
              obtain ⟨member, kept⟩ := List.mem_filter.mp member
              obtain ⟨member, isDir⟩ := List.mem_filter.mp member
              exact .inside listed ⟨member, isDir, kept⟩ ((ih name).mp visited)
          · obtain ⟨names, inner, grandchild⟩ := listing
            intro visits
            cases visits with
            | here _ => exact .inl rfl
            | @inside _ _ _ _ name names _ kept visits =>
                obtain ⟨member, isDir, kept⟩ := kept
                refine .inr ⟨name, List.mem_filter.mpr ⟨List.mem_filter.mpr ⟨member, isDir⟩, kept⟩, ?_⟩
                exact List.mem_map.mpr ⟨⟨names, inner, grandchild⟩, (ih name).mpr visits, rfl⟩

/-- No directory comes twice. -/
theorem preorder_nodup (keeps : Directory ν ε → (ν → FileTree ν ε) → ν → Bool) (tree : FileTree ν ε) :
    ((tree.preorder keeps).map Listing.names).Nodup := by
  induction tree with
  | file _ | link _ _ => exact .nil
  | dir directory child ih =>
      cases listed : directory.listable with
      | false =>
          rw [preorder_unlisted listed]
          exact .nil
      | true =>
          rw [preorder_dir listed, List.map_cons, List.map_flatMap, List.nodup_cons]
          constructor
          · intro member
            obtain ⟨name, _, member⟩ := List.mem_flatMap.mp member
            obtain ⟨_, inner, same⟩ := List.mem_map.mp member
            obtain ⟨_, _, rfl⟩ := List.mem_map.mp inner
            cases same
          · refine List.nodup_flatMap.mpr ⟨?_, ?_⟩
            · intro name _
              have same : (Listing.names ∘ Listing.under name : Listing ν ε → List ν) =
                  List.cons name ∘ Listing.names := rfl
              rw [List.map_map, same, ← List.map_map]
              exact (ih name).map (List.cons_injective)
            · have unique : ((dirnames directory child).filter (keeps directory child)).Nodup :=
                (directory.unique.filter _).filter _
              refine unique.imp ?_
              intro first second different names left right
              obtain ⟨_, inner, rfl⟩ := List.mem_map.mp left
              obtain ⟨_, _, rfl⟩ := List.mem_map.mp inner
              obtain ⟨_, inner, same⟩ := List.mem_map.mp right
              obtain ⟨_, _, rfl⟩ := List.mem_map.mp inner
              exact different (List.cons.inj same).1.symm

end Order

/-- A walk over a directory that can be listed calls the body and then descends. -/
theorem walk_listed {join : π → ν → π} {body : Body ν ε φ π σ} {directory : Directory ν ε}
    {child : ν → FileTree ν ε} (listed : directory.listable = true) (top : π) (state : σ) :
    (FileTree.dir directory child).walk join body top state =
      (body directory child top (dirnames directory child) (filenames directory child) state).bind
        fun result => result.1.foldlM
          (fun state name => (child name).walk join body (join top name) state) result.2 := by
  rw [walk, if_pos listed]
  unfold dirnames filenames
  generalize body directory child top _ _ state = result
  cases result with
  | error raised => rfl
  | ok result => rfl

section Logs

variable {log : σ → List β} {stopped : φ → List β}

/-- A result has logged everything, or it has stopped somewhere before. -/
def Logs (log : σ → List β) (stopped : φ → List β) (before all : List β) : Except φ σ → Prop
  | .ok after => log after = before ++ all
  | .error raised => ∃ part, part <+: all ∧ stopped raised = before ++ part

/-- What has been logged before comes first. -/
theorem Logs.later {before middle first second : List β} {result : Except φ σ}
    (logged : middle = before ++ first) (logs : Logs log stopped middle second result) :
    Logs log stopped before (first ++ second) result := by
  rw [logged] at logs
  cases result with
  | ok after =>
      change log after = before ++ (first ++ second)
      rw [← List.append_assoc]
      exact logs
  | error raised =>
      obtain ⟨part, starts, logged⟩ := logs
      refine ⟨first ++ part, (List.prefix_append_right_inj first).mpr starts, ?_⟩
      rw [← List.append_assoc]
      exact logged

/-- Two calls log one after the other. -/
theorem Logs.append {before first second : List β} {result : Except φ σ} {next : σ → Except φ τ}
    {final : τ → List β} (logs : Logs log stopped before first result)
    (later : ∀ state, result = .ok state → Logs final stopped (log state) second (next state)) :
    Logs final stopped before (first ++ second) (result.bind next) := by
  cases result with
  | error raised =>
      obtain ⟨part, starts, logged⟩ := logs
      exact ⟨part, starts.trans (List.prefix_append _ _), logged⟩
  | ok state => exact Logs.later logs (later state rfl)

/-- A loop logs what its rounds log. -/
theorem foldlM_logs {step : σ → α → Except φ σ} {emits : α → List β} {list : List α}
    (round : ∀ entry ∈ list, ∀ state, Logs log stopped (log state) (emits entry) (step state entry))
    (state : σ) : Logs log stopped (log state) (list.flatMap emits) (list.foldlM step state) := by
  induction list generalizing state with
  | nil => exact (List.append_nil _).symm
  | cons entry list ih =>
      rw [List.foldlM_cons, List.flatMap_cons]
      refine (round entry List.mem_cons_self state).append ?_
      exact fun after _ => ih (fun other member => round other (List.mem_cons_of_mem _ member)) after

theorem flatMap_ite (condition : α → Prop) [DecidablePred condition] (emit : α → β) (list : List α) :
    list.flatMap (fun entry => if condition entry then [emit entry] else []) =
      (list.filter fun entry => condition entry).map emit := by
  induction list with
  | nil => rfl
  | cons entry list ih =>
      rw [List.flatMap_cons, ih, List.filter_cons]
      by_cases holds : condition entry <;> simp [holds]

/-- A loop that returns has collected what its rounds collect. -/
theorem foldlM_collects {step : σ → α → Except φ σ} {emits : α → List β} {list : List α}
    (round : ∀ entry ∈ list, ∀ state after, step state entry = .ok after →
      log after = log state ++ emits entry)
    {state after : σ} (done : list.foldlM step state = .ok after) :
    log after = log state ++ list.flatMap emits := by
  induction list generalizing state with
  | nil =>
      obtain rfl := Except.ok.inj done
      exact (List.append_nil _).symm
  | cons entry list ih =>
      rw [List.foldlM_cons] at done
      obtain ⟨middle, first, rest⟩ := exists_of_bind done
      rw [ih (fun other member => round other (List.mem_cons_of_mem _ member)) rest,
        round entry List.mem_cons_self state middle first, List.flatMap_cons, List.append_assoc]

/-- A walk logs what its body logs, in the order of the directories. -/
theorem walk_logs (join : π → ν → π) {body : Body ν ε φ π σ}
    {keeps : Directory ν ε → (ν → FileTree ν ε) → ν → Bool}
    {emits : Directory ν ε → (ν → FileTree ν ε) → π → List β}
    (kept : ∀ directory child top state left after,
      body directory child top (dirnames directory child) (filenames directory child) state =
        .ok (left, after) → left = (dirnames directory child).filter (keeps directory child))
    (logs : ∀ directory child top state, Logs (fun result => log result.2) stopped (log state)
      (emits directory child top)
      (body directory child top (dirnames directory child) (filenames directory child) state))
    (tree : FileTree ν ε) (top : π) (state : σ) :
    Logs log stopped (log state) ((tree.preorder keeps).flatMap fun listing =>
      emits listing.directory listing.child (listing.names.foldl join top))
      (tree.walk join body top state) := by
  induction tree generalizing top state with
  | file _ | link _ _ => exact (List.append_nil _).symm
  | dir directory child ih =>
      cases listed : directory.listable with
      | false =>
          rw [preorder_unlisted listed, walk, if_neg (by rw [listed]; exact Bool.false_ne_true)]
          exact (List.append_nil _).symm
      | true =>
          rw [preorder_dir listed, List.flatMap_cons, List.flatMap_assoc, walk_listed listed]
          refine (logs directory child top state).append ?_
          intro result called
          obtain ⟨left, after⟩ := result
          rw [kept directory child top state left after called]
          refine foldlM_logs (fun name _ state => ?_) after
          rw [List.flatMap_map]
          exact ih name (join top name) state

end Logs

section Agreement

variable {related : σ → τ → Prop} {stopping : φ → ψ → Prop}

/-- Two results agree if both are there and are related, or both have stopped and are related. -/
def Agrees (stopping : φ → ψ → Prop) (related : σ → τ → Prop) : Except φ σ → Except ψ τ → Prop
  | .ok first, .ok second => related first second
  | .error first, .error second => stopping first second
  | _, _ => False

theorem Agrees.bind {other : α → β → Prop} {first : Except φ σ} {second : Except ψ τ}
    {next : σ → Except φ α} {following : τ → Except ψ β} (agrees : Agrees stopping related first second)
    (later : ∀ left right, related left right → Agrees stopping other (next left) (following right)) :
    Agrees stopping other (first.bind next) (second.bind following) := by
  cases first with
  | error left =>
      cases second with
      | error right => exact agrees
      | ok right => exact agrees.elim
  | ok left =>
      cases second with
      | error right => exact agrees.elim
      | ok right => exact later left right agrees

theorem Agrees.map {other : α → β → Prop} {first : Except φ σ} {second : Except ψ τ}
    {next : σ → Except φ α} {following : τ → β} (agrees : Agrees stopping related first second)
    (later : ∀ left right, related left right → Agrees stopping other (next left) (.ok (following right))) :
    Agrees stopping other (first.bind next) (second.map following) := by
  have bound : second.map following = second.bind fun right => .ok (following right) := by
    cases second <;> rfl
  rw [bound]
  exact agrees.bind later

/-- Loops agree if their rounds do. -/
theorem foldlM_agrees {step : σ → α → Except φ σ} {counterpart : τ → α → Except ψ τ} {list : List α}
    (round : ∀ entry ∈ list, ∀ left right, related left right →
      Agrees stopping related (step left entry) (counterpart right entry))
    {left : σ} {right : τ} (begins : related left right) :
    Agrees stopping related (list.foldlM step left) (list.foldlM counterpart right) := by
  induction list generalizing left right with
  | nil => exact begins
  | cons entry list ih =>
      rw [List.foldlM_cons, List.foldlM_cons]
      refine (round entry List.mem_cons_self left right begins).bind ?_
      exact fun _ _ held => ih (fun other member => round other (List.mem_cons_of_mem _ member)) held

/-- Walks agree if their bodies do. -/
theorem walk_agrees (above : π → ρ → Prop) {join : π → ν → π} {body : Body ν ε φ π σ} {joins : ρ → ν → ρ}
    {counterpart : Body ν ε ψ ρ τ}
    (joined : ∀ top place name, above top place → above (join top name) (joins place name))
    (bodies : ∀ directory child top place left right, above top place → related left right →
      Agrees stopping (fun first second => first.1 = second.1 ∧ related first.2 second.2)
        (body directory child top (dirnames directory child) (filenames directory child) left)
        (counterpart directory child place (dirnames directory child) (filenames directory child) right))
    (tree : FileTree ν ε) {top : π} {place : ρ} {left : σ} {right : τ} (tops : above top place)
    (begins : related left right) :
    Agrees stopping related (tree.walk join body top left) (tree.walk joins counterpart place right) := by
  induction tree generalizing top place left right with
  | file _ | link _ _ => exact begins
  | dir directory child ih =>
      cases listed : directory.listable with
      | false =>
          have unlisted : ¬ directory.listable = true := by
            rw [listed]
            exact Bool.false_ne_true
          rw [walk, walk, if_neg unlisted, if_neg unlisted]
          exact begins
      | true =>
          rw [walk_listed listed, walk_listed listed]
          refine (bodies directory child top place left right tops begins).bind ?_
          intro first second held
          rw [held.1]
          exact foldlM_agrees (fun name _ _ _ held => ih name (joined top place name tops) held) held.2

end Agreement

end FileTree
