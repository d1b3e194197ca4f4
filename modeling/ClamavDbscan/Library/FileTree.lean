import Mathlib.Data.List.Nodup

/-
This file defines finite file trees and the walk of `os.walk` over them, with its rules.
-/

variable {ν ε φ π σ ω : Type*}

/-- A directory has these entries, and its listing can fail. -/
structure Directory (ν ε : Type*) where
  device : Nat
  names : List ν
  unique : names.Nodup
  listable : Bool
  -- Without search permission no entry can be looked at.
  denied : Option ε

/-- Only the children with listed names belong to the tree. -/
inductive FileTree (ν ε : Type*) where
  | file (device : Nat)
  -- The answer of `is_dir` follows the link.
  | link (device : Nat) (isDir : Bool)
  | dir (directory : Directory ν ε) (child : ν → FileTree ν ε)

namespace FileTree

/-- This is the field `st_dev` of `os.lstat`. -/
def device : FileTree ν ε → Nat
  | .file device | .link device _ => device
  | .dir directory _ => directory.device

/-- `DirEntry.is_dir` counts a link to a directory as a directory. -/
def isDir : FileTree ν ε → Bool
  | .file _ => false
  | .link _ isDir => isDir
  | .dir _ _ => true

/-- The loop body gets a directory with its children, its path and its two lists of names, and it
returns the names that are left of the first list. -/
abbrev Body (ν ε φ π σ : Type*) :=
  Directory ν ε → (ν → FileTree ν ε) → π → List ν → List ν → σ → Except φ (List ν × σ)

/-- The walk goes top down, ignores a listing that fails, and descends after the body into the
directories that are left; a link is not followed. -/
def walk (join : π → ν → π) (body : Body ν ε φ π σ) : FileTree ν ε → π → σ → Except φ σ
  | .file _, _, state | .link _ _, _, state => .ok state
  | .dir directory child, top, state =>
      if directory.listable then
        match body directory child top (directory.names.filter fun name => (child name).isDir)
            (directory.names.filter fun name => !(child name).isDir) state with
        | .error raised => .error raised
        | .ok (dirnames, after) =>
            dirnames.foldlM (fun state name => walk join body (child name) (join top name) state) after
      else .ok state

/-- The walk lists this directory at these names if it descends into the ones that are kept. -/
inductive Visits (keeps : Directory ν ε → (ν → FileTree ν ε) → ν → Prop) :
    FileTree ν ε → List ν → Directory ν ε → (ν → FileTree ν ε) → Prop
  | here {directory : Directory ν ε} {child : ν → FileTree ν ε} :
      directory.listable = true → Visits keeps (.dir directory child) [] directory child
  | inside {directory inner : Directory ν ε} {child grandchild : ν → FileTree ν ε} {name : ν}
      {names : List ν} :
      directory.listable = true → keeps directory child name →
      Visits keeps (child name) names inner grandchild →
      Visits keeps (.dir directory child) (name :: names) inner grandchild

theorem not_visits_of_unlisted {keeps : Directory ν ε → (ν → FileTree ν ε) → ν → Prop}
    {directory inner : Directory ν ε} {child grandchild : ν → FileTree ν ε} {names : List ν}
    (unlisted : directory.listable = false) :
    ¬ Visits keeps (.dir directory child) names inner grandchild := by
  intro visits
  cases visits with
  | here listed | inside listed _ _ => exact absurd (listed.symm.trans unlisted) (by decide)

/-- A directory that is listed is visited, and so are those below the names that are kept. -/
theorem exists_visits_dir {keeps : Directory ν ε → (ν → FileTree ν ε) → ν → Prop}
    {directory : Directory ν ε} {child : ν → FileTree ν ε} (listed : directory.listable = true)
    (property : List ν → Directory ν ε → (ν → FileTree ν ε) → Prop) :
    (∃ names inner grandchild, Visits keeps (.dir directory child) names inner grandchild ∧
        property names inner grandchild) ↔
      property [] directory child ∨ ∃ name, keeps directory child name ∧
        ∃ names inner grandchild, Visits keeps (child name) names inner grandchild ∧
          property (name :: names) inner grandchild := by
  constructor
  · rintro ⟨names, inner, grandchild, visits, holds⟩
    cases visits with
    | here _ => exact .inl holds
    | inside _ kept visits => exact .inr ⟨_, kept, _, _, _, visits, holds⟩
  · rintro (holds | ⟨name, kept, names, inner, grandchild, visits, holds⟩)
    · exact ⟨[], directory, child, .here listed, holds⟩
    · exact ⟨name :: names, inner, grandchild, .inside listed kept visits, holds⟩

/-- A call that returns goes on from an earlier one that has returned. -/
theorem exists_of_bind {α β : Type*} {result : Except φ α} {next : α → Except φ β} {after : β}
    (done : result.bind next = .ok after) : ∃ middle, result = .ok middle ∧ next middle = .ok after := by
  cases result with
  | error raised => cases done
  | ok middle => exact ⟨middle, rfl, done⟩

/-- A loop shows what its rounds add. -/
theorem foldlM_shows {α : Type*} {step : σ → α → Except φ σ} {list : List α} (shows : σ → Prop)
    (adds : α → Prop)
    (round : ∀ entry ∈ list, ∀ state after, step state entry = .ok after →
      (shows after ↔ shows state ∨ adds entry))
    {state after : σ} (done : list.foldlM step state = .ok after) :
    shows after ↔ shows state ∨ ∃ entry ∈ list, adds entry := by
  induction list generalizing state with
  | nil =>
      obtain rfl := Except.ok.inj done
      simp
  | cons entry list ih =>
      rw [List.foldlM_cons] at done
      obtain ⟨middle, first, rest⟩ := exists_of_bind done
      have head := round entry List.mem_cons_self state middle first
      have tail := ih (fun other member => round other (List.mem_cons_of_mem _ member)) rest
      rw [tail, head]
      simp [or_assoc]

/-- A loop keeps what its rounds keep. -/
theorem foldlM_keeps {α : Type*} {step : σ → α → Except φ σ} {list : List α} (invariant : σ → Prop)
    (round : ∀ entry ∈ list, ∀ state after, invariant state → step state entry = .ok after →
      invariant after)
    {state after : σ} (holds : invariant state) (done : list.foldlM step state = .ok after) :
    invariant after := by
  induction list generalizing state with
  | nil =>
      obtain rfl := Except.ok.inj done
      exact holds
  | cons entry list ih =>
      rw [List.foldlM_cons] at done
      obtain ⟨middle, first, rest⟩ := exists_of_bind done
      have kept := round entry List.mem_cons_self state middle holds first
      exact ih (fun other member => round other (List.mem_cons_of_mem _ member)) kept rest

section Walk

variable {join : π → ν → π} {body : Body ν ε φ π σ} {tree : FileTree ν ε} {top : π} {state after : σ}

/-- A walk over a directory that is listed calls the body and then descends. -/
theorem walk_dir {directory : Directory ν ε} {child : ν → FileTree ν ε}
    (listed : directory.listable = true)
    (done : walk join body (.dir directory child) top state = .ok after) :
    ∃ dirnames middle,
      body directory child top (directory.names.filter fun name => (child name).isDir)
        (directory.names.filter fun name => !(child name).isDir) state = .ok (dirnames, middle) ∧
      dirnames.foldlM (fun state name => walk join body (child name) (join top name) state) middle =
        .ok after := by
  rw [walk, if_pos listed] at done
  split at done
  · contradiction
  · rename_i dirnames middle called
    exact ⟨dirnames, middle, called, done⟩

/-- A walk shows what the body adds at the directories that it visits. -/
theorem walk_shows (keeps : Directory ν ε → (ν → FileTree ν ε) → ν → Prop) (shows : σ → Prop)
    (adds : Directory ν ε → (ν → FileTree ν ε) → π → Prop)
    (spec : ∀ directory child top state dirnames after,
      body directory child top (directory.names.filter fun name => (child name).isDir)
        (directory.names.filter fun name => !(child name).isDir) state = .ok (dirnames, after) →
      (∀ name, name ∈ dirnames ↔ keeps directory child name) ∧
        (shows after ↔ shows state ∨ adds directory child top))
    (done : walk join body tree top state = .ok after) :
    shows after ↔ shows state ∨ ∃ names directory child, Visits keeps tree names directory child ∧
      adds directory child (names.foldl join top) := by
  induction tree generalizing top state after with
  | file _ | link _ _ =>
      obtain rfl := Except.ok.inj done
      refine (or_iff_left ?_).symm
      intro visited
      obtain ⟨names, directory, child, visits, _⟩ := visited
      cases visits
  | dir directory child ih =>
      cases listed : directory.listable with
      | false =>
          rw [walk, if_neg (by simp [listed])] at done
          obtain rfl := Except.ok.inj done
          refine (or_iff_left ?_).symm
          intro visited
          obtain ⟨names, inner, grandchild, visits, _⟩ := visited
          exact not_visits_of_unlisted listed visits
      | true =>
          obtain ⟨dirnames, middle, called, descended⟩ := walk_dir listed done
          obtain ⟨kept, shown⟩ := spec directory child top state dirnames middle called
          have below := foldlM_shows shows _ (fun name _ state after done => ih name done) descended
          rw [below, shown, or_assoc, exists_visits_dir listed]
          simp only [kept]
          rfl

/-- A walk keeps what the body keeps. -/
theorem walk_keeps (invariant : σ → Prop)
    (spec : ∀ directory child top dirnames filenames state kept after, invariant state →
      body directory child top dirnames filenames state = .ok (kept, after) → invariant after)
    (holds : invariant state) (done : walk join body tree top state = .ok after) :
    invariant after := by
  induction tree generalizing top state after with
  | file _ | link _ _ =>
      obtain rfl := Except.ok.inj done
      exact holds
  | dir directory child ih =>
      cases listed : directory.listable with
      | false =>
          rw [walk, if_neg (by simp [listed])] at done
          obtain rfl := Except.ok.inj done
          exact holds
      | true =>
          obtain ⟨dirnames, middle, called, descended⟩ := walk_dir listed done
          have kept := spec directory child top _ _ state dirnames middle holds called
          exact foldlM_keeps invariant (fun name _ state after held done => ih name held done) kept
            descended

end Walk

end FileTree
