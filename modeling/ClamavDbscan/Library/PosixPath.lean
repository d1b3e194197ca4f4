import Mathlib.Data.List.Basic

/-
This file defines the operations of `posixpath` on path texts and shows how names extend a path.
-/

namespace PosixPath

variable {α : Type*}

/-- Two characters of a path have a meaning. -/
structure Marks (α : Type*) where
  slash : α
  dot : α
  different : slash ≠ dot

namespace Marks

variable (marks : Marks α)

/-- A directory lists these names; it never lists `.` and `..`. -/
structure Valid (name : List α) : Prop where
  nonempty : name ≠ []
  noSlash : marks.slash ∉ name
  notSelf : name ≠ [marks.dot]
  notParent : name ≠ [marks.dot, marks.dot]

variable {marks}

theorem eq_nil_of_intercalate {names : List (List α)} (valid : ∀ name ∈ names, marks.Valid name)
    (empty : [marks.slash].intercalate names = []) : names = [] := by
  cases names with
  | nil => rfl
  | cons name names =>
      have nonempty := (valid name List.mem_cons_self).nonempty
      cases names <;> simp_all

theorem intercalate_append {first second : List (List α)} (begins : first ≠ []) (ends : second ≠ []) :
    [marks.slash].intercalate (first ++ second) =
      [marks.slash].intercalate first ++ marks.slash :: [marks.slash].intercalate second := by
  induction first with
  | nil => contradiction
  | cons component others ih =>
      by_cases last : others = []
      · subst last
        rw [List.singleton_append, List.intercalate_cons_of_ne_nil ends]
        simp
      · have more : others ++ second ≠ [] := fun none => last (List.append_eq_nil_iff.mp none).1
        rw [List.cons_append, List.intercalate_cons_of_ne_nil more, ih last,
          List.intercalate_cons_of_ne_nil last]
        simp

theorem eq_nil_of_append {stack names : List (List α)} (valid : ∀ name ∈ names, marks.Valid name)
    (empty : [marks.slash].intercalate (stack ++ names) = []) : names = [] := by
  by_cases begins : stack = []
  · subst begins
    exact eq_nil_of_intercalate valid empty
  · by_contra more
    rw [intercalate_append begins more] at empty
    simp at empty

variable [DecidableEq α] (marks)

def isabs (path : List α) : Bool := path.head? = some marks.slash

/-- The second path follows the first one, unless it is absolute. -/
def join (path other : List α) : List α :=
  if marks.isabs other then other
  else if path = [] ∨ path.getLast? = some marks.slash then path ++ other
  else path ++ marks.slash :: other

/-- Exactly two slashes at the start are kept; three and more are one. -/
def initialSlashes (path : List α) : Nat :=
  if marks.isabs path then
    if [marks.slash, marks.slash] <+: path ∧ ¬ [marks.slash, marks.slash, marks.slash] <+: path then 2
    else 1
  else 0

/-- A component goes on the stack, is dropped, or takes the last one away. -/
def push (rooted : Bool) (stack : List (List α)) (component : List α) : List (List α) :=
  if component = [] ∨ component = [marks.dot] then stack
  else if component ≠ [marks.dot, marks.dot] ∨ (rooted = false ∧ stack = []) ∨
      stack.getLast? = some [marks.dot, marks.dot] then
    stack ++ [component]
  else stack.dropLast

/-- The components are joined again, and an empty text is the current directory. -/
def render (slashes : Nat) (components : List (List α)) : List α :=
  let path := List.replicate slashes marks.slash ++ [marks.slash].intercalate components
  if path = [] then [marks.dot] else path

def components (path : List α) : List (List α) :=
  (path.splitOn marks.slash).foldl (marks.push (marks.initialSlashes path != 0)) []

def normpath (path : List α) : List α := marks.render (marks.initialSlashes path) (marks.components path)

/-- A relative path starts at the current directory. -/
def abspath (cwd path : List α) : List α :=
  marks.normpath (if marks.isabs path then path else marks.join cwd path)

/-- The names extend the path one after the other. -/
def descend (path : List α) (names : List (List α)) : List α := names.foldl marks.join path

variable {marks} {name path cwd : List α}

theorem Valid.not_isabs (valid : marks.Valid name) : marks.isabs name = false := by
  cases name with
  | nil => rfl
  | cons first rest =>
      have different : first ≠ marks.slash := fun same => valid.noSlash (same ▸ List.mem_cons_self)
      simpa [isabs] using different

@[simp] theorem push_nil (rooted : Bool) (stack : List (List α)) :
    marks.push rooted stack [] = stack := if_pos (.inl rfl)

theorem isabs_join (valid : marks.Valid name) : marks.isabs (marks.join path name) = marks.isabs path := by
  have relative := valid.not_isabs
  cases path with
  | nil => simpa [join, isabs] using relative
  | cons first rest =>
      simp only [join, relative, Bool.false_eq_true, if_false]
      split <;> rfl

/-- A name extends the path that extends the current directory. -/
theorem join_join (valid : marks.Valid name) (relative : marks.isabs path = false) :
    marks.join (marks.join cwd path) name = marks.join cwd (marks.join path name) := by
  have extended : marks.isabs (marks.join path name) = false := (isabs_join valid).trans relative
  rw [join, valid.not_isabs, join, relative, join, extended, join, valid.not_isabs]
  simp only [Bool.false_eq_true, if_false]
  by_cases empty : path = []
  · subst empty
    by_cases ends : cwd = [] ∨ cwd.getLast? = some marks.slash <;> simp [ends]
  · have last : ∀ before : List α, (before ++ path).getLast? = path.getLast? := fun before =>
      List.getLast?_append_of_ne_nil before empty
    have inner : (cwd ++ marks.slash :: path).getLast? = path.getLast? := by
      rw [List.append_cons]
      exact last _
    by_cases ends : cwd = [] ∨ cwd.getLast? = some marks.slash <;>
      by_cases slash : path.getLast? = some marks.slash <;> simp [ends, slash, empty, last, inner]

theorem abspath_descend {names : List (List α)} (valid : ∀ name ∈ names, marks.Valid name) :
    marks.abspath cwd (marks.descend path names) =
      marks.normpath (marks.descend (if marks.isabs path then path else marks.join cwd path) names) := by
  induction names generalizing path with
  | nil => rfl
  | cons name names ih =>
      have first := valid name List.mem_cons_self
      have later : marks.abspath cwd (marks.descend (marks.join path name) names) = _ :=
        ih fun other member => valid other (List.mem_cons_of_mem _ member)
      change marks.abspath cwd (marks.descend (marks.join path name) names) = _
      rw [later, isabs_join first]
      cases absolute : marks.isabs path with
      | true => rfl
      | false =>
          simp only [Bool.false_eq_true, if_false]
          rw [← join_join first absolute]
          rfl

/-- A name stays on the stack. -/
theorem push_valid (valid : marks.Valid name) (rooted : Bool) (stack : List (List α)) :
    marks.push rooted stack name = stack ++ [name] := by
  simp [push, valid.nonempty, valid.notSelf, valid.notParent]

/-- A name after a slash is the last piece. -/
theorem splitOn_slash (valid : marks.Valid name) (path : List α) :
    (path ++ marks.slash :: name).splitOn marks.slash = path.splitOn marks.slash ++ [name] := by
  rw [List.splitOn_append_cons_self, List.splitOn_eq_singleton valid.noSlash]

/-- A name does not change how a path starts. -/
theorem initialSlashes_join (valid : marks.Valid name) :
    marks.initialSlashes (marks.join path name) = marks.initialSlashes path := by
  obtain ⟨first, rest, rfl⟩ := List.exists_cons_of_ne_nil valid.nonempty
  have different : marks.slash ≠ first := fun same => valid.noSlash (same ▸ List.mem_cons_self)
  simp only [join, valid.not_isabs, Bool.false_eq_true, if_false]
  match path with
  | [] => simp [initialSlashes, isabs, different.symm]
  | [one] => by_cases one = marks.slash <;> simp_all [initialSlashes, isabs, List.cons_prefix_cons]
  | [one, two] =>
      by_cases two = marks.slash <;>
        simp_all [initialSlashes, isabs, List.cons_prefix_cons, @eq_comm _ marks.slash]
  | one :: two :: three :: more =>
      split <;> simp [initialSlashes, isabs, List.cons_prefix_cons]

theorem components_join (valid : marks.Valid name) :
    marks.components (marks.join path name) = marks.components path ++ [name] := by
  have rooted : marks.initialSlashes (marks.join path name) = _ := initialSlashes_join valid
  rw [components, rooted, components]
  simp only [join, valid.not_isabs, Bool.false_eq_true, if_false]
  split
  · rename_i ends
    rcases ends with rfl | last
    · rw [List.nil_append, List.splitOn_eq_singleton valid.noSlash, List.splitOn_nil]
      simp [push_valid valid]
    · obtain ⟨before, rfl⟩ := List.getLast?_eq_some_iff.mp last
      rw [List.append_assoc, List.singleton_append, splitOn_slash valid, List.splitOn_append_cons_self]
      simp [push_valid valid]
  · rw [splitOn_slash valid, List.foldl_append]
    exact push_valid valid _ _

/-- The names of a path below another one are its last components. -/
theorem normpath_descend {names : List (List α)} (valid : ∀ name ∈ names, marks.Valid name) :
    marks.normpath (marks.descend path names) =
      marks.render (marks.initialSlashes path) (marks.components path ++ names) := by
  induction names generalizing path with
  | nil => rw [List.append_nil]; rfl
  | cons name names ih =>
      have first := valid name List.mem_cons_self
      have later : marks.normpath (marks.descend (marks.join path name) names) = _ :=
        ih fun other member => valid other (List.mem_cons_of_mem _ member)
      rw [initialSlashes_join first, components_join first, List.append_assoc] at later
      exact later

theorem splitOn_names {names : List (List α)} (valid : ∀ name ∈ names, marks.Valid name)
    (nonempty : names ≠ []) : ([marks.slash].intercalate names).splitOn marks.slash = names :=
  List.splitOn_intercalate marks.slash (fun name member => (valid name member).noSlash) nonempty

section Injective

variable {stack first second : List (List α)}

/-- Joined names are the same text only if they are the same names. -/
theorem intercalate_injective (left : ∀ name ∈ first, marks.Valid name)
    (right : ∀ name ∈ second, marks.Valid name)
    (same : [marks.slash].intercalate first = [marks.slash].intercalate second) : first = second := by
  by_cases begins : first = []
  · subst begins
    exact (eq_nil_of_intercalate right same.symm).symm
  · by_cases ends : second = []
    · subst ends
      exact eq_nil_of_intercalate left same
    · rw [← splitOn_names left begins, ← splitOn_names right ends, same]

theorem intercalate_append_injective (left : ∀ name ∈ first, marks.Valid name)
    (right : ∀ name ∈ second, marks.Valid name)
    (same : [marks.slash].intercalate (stack ++ first) = [marks.slash].intercalate (stack ++ second)) :
    first = second := by
  by_cases empty : stack = []
  · subst empty
    exact intercalate_injective left right same
  · by_cases begins : first = [] <;> by_cases ends : second = []
    · rw [begins, ends]
    · rw [begins, List.append_nil, intercalate_append empty ends] at same
      simp at same
    · rw [ends, List.append_nil, intercalate_append empty begins] at same
      simp at same
    · rw [intercalate_append empty begins, intercalate_append empty ends] at same
      exact intercalate_injective left right (List.cons.inj (List.append_cancel_left same)).2

/-- No names make the current directory. -/
theorem intercalate_ne_dot (left : ∀ name ∈ first, marks.Valid name) (more : first ≠ []) :
    [marks.slash].intercalate (stack ++ first) ≠ [marks.dot] := by
  intro current
  by_cases begins : stack = []
  · subst begins
    have pieces := splitOn_names left more
    rw [List.nil_append] at current
    rw [current, List.splitOn_eq_singleton (by simpa using marks.different)] at pieces
    exact (left [marks.dot] (by rw [← pieces]; exact List.mem_cons_self)).notSelf rfl
  · rw [intercalate_append begins more] at current
    have slash : marks.slash ∈ [marks.dot] := by
      rw [← current]
      simp
    exact marks.different (List.mem_singleton.mp slash)

/-- The current directory has no path of its own below it. -/
theorem render_ne_dot {slashes : Nat} (left : ∀ name ∈ first, marks.Valid name)
    (right : ∀ name ∈ second, marks.Valid name)
    (empty : List.replicate slashes marks.slash ++ [marks.slash].intercalate (stack ++ first) = [])
    (current : List.replicate slashes marks.slash ++ [marks.slash].intercalate (stack ++ second) =
      [marks.dot]) : first = second := by
  obtain ⟨none, joined⟩ := List.append_eq_nil_iff.mp empty
  rw [none, List.nil_append] at current
  by_contra different
  have begins := eq_nil_of_append left joined
  have more : second ≠ [] := fun ends => different (begins.trans ends.symm)
  exact intercalate_ne_dot right more current

theorem render_injective {slashes : Nat} (left : ∀ name ∈ first, marks.Valid name)
    (right : ∀ name ∈ second, marks.Valid name)
    (same : marks.render slashes (stack ++ first) = marks.render slashes (stack ++ second)) :
    first = second := by
  unfold render at same
  dsimp only at same
  split at same
  · rename_i empty
    split at same
    · rename_i none
      exact (eq_nil_of_append left (List.append_eq_nil_iff.mp empty).2).trans
        (eq_nil_of_append right (List.append_eq_nil_iff.mp none).2).symm
    · exact render_ne_dot left right empty same.symm
  · split at same
    · rename_i none
      exact (render_ne_dot right left none same).symm
    · exact intercalate_append_injective left right (List.append_cancel_left same)

/-- Two paths below one path are the same only if their names are. -/
theorem normpath_injective (left : ∀ name ∈ first, marks.Valid name)
    (right : ∀ name ∈ second, marks.Valid name)
    (same : marks.normpath (marks.descend path first) = marks.normpath (marks.descend path second)) :
    first = second := by
  rw [normpath_descend left, normpath_descend right] at same
  exact render_injective left right same

/-- Two absolute paths below one path are the same only if their names are. -/
theorem abspath_injective (left : ∀ name ∈ first, marks.Valid name)
    (right : ∀ name ∈ second, marks.Valid name)
    (same : marks.abspath cwd (marks.descend path first) =
      marks.abspath cwd (marks.descend path second)) : first = second := by
  rw [abspath_descend left, abspath_descend right] at same
  exact normpath_injective left right same

/-- Names are read off the path that they extend. -/
theorem descend_injective (left : ∀ name ∈ first, marks.Valid name)
    (right : ∀ name ∈ second, marks.Valid name)
    (same : marks.descend path first = marks.descend path second) : first = second :=
  normpath_injective left right (congrArg marks.normpath same)

end Injective

end Marks

end PosixPath
