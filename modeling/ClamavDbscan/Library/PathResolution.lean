import ClamavDbscan.Library.PosixPath

/-
This file defines how a kernel resolves a path with links and compares it with the lexical reading.
-/

namespace PosixPath

variable {α : Type*}

/-- A name leads to one of these. -/
inductive Entry (α : Type*) where
  | file
  | directory
  | link (target : List α)

/-- The entries of a file system stand at the names on the way from its root. -/
abbrev Namespace (α : Type*) := List (List α) → Option (Entry α)

namespace Marks

variable (marks : Marks α)

/-- The canonical path of a directory has the names on the way to it. -/
def canonical (names : List (List α)) : List α := marks.render 1 names

/-- A piece of a path between two slashes is not empty. -/
structure Piece (component : List α) : Prop where
  nonempty : component ≠ []
  noSlash : marks.slash ∉ component

variable {marks}

theorem canonical_eq (names : List (List α)) :
    marks.canonical names = marks.slash :: [marks.slash].intercalate names := by
  simp [canonical, render]

theorem Valid.piece {name : List α} (valid : marks.Valid name) : marks.Piece name :=
  ⟨valid.nonempty, valid.noSlash⟩

/-- Joined pieces do not begin with a slash. -/
theorem intercalate_ne_slash {names : List (List α)} (pieces : ∀ entry ∈ names, marks.Piece entry)
    (rest : List α) : [marks.slash].intercalate names ≠ marks.slash :: rest := by
  cases names with
  | nil => simp
  | cons component others =>
      have piece := pieces component List.mem_cons_self
      obtain ⟨head, tail, rfl⟩ := List.exists_cons_of_ne_nil piece.nonempty
      intro same
      have slash : head = marks.slash := by
        cases others with
        | nil => simpa using congrArg List.head? same
        | cons second more =>
            rw [List.intercalate_cons_of_ne_nil (List.cons_ne_nil _ _)] at same
            simpa using congrArg List.head? same
      exact piece.noSlash (slash ▸ List.mem_cons_self)

theorem eq_nil_of_pieces {names : List (List α)} (pieces : ∀ entry ∈ names, marks.Piece entry)
    (empty : [marks.slash].intercalate names = []) : names = [] := by
  cases names with
  | nil => rfl
  | cons component others =>
      have nonempty := (pieces component List.mem_cons_self).nonempty
      cases others <;> simp_all

/-- The canonical path of a directory below the root does not end with a slash. -/
theorem getLast_canonical {cwd : List (List α)} (valid : ∀ name ∈ cwd, marks.Valid name)
    (more : cwd ≠ []) : (marks.canonical cwd).getLast? ≠ some marks.slash := by
  obtain ⟨before, name, rfl⟩ := (List.eq_nil_or_concat cwd).resolve_left more
  rw [List.concat_eq_append] at valid ⊢
  have last := valid name (List.mem_append_right _ List.mem_cons_self)
  have text : ∃ start, marks.canonical (before ++ [name]) = start ++ name := by
    by_cases begins : before = []
    · subst begins
      exact ⟨[marks.slash], by simp [canonical_eq]⟩
    · refine ⟨marks.slash :: ([marks.slash].intercalate before ++ [marks.slash]), ?_⟩
      rw [canonical_eq, intercalate_append begins (List.cons_ne_nil _ _)]
      simp
  obtain ⟨start, text⟩ := text
  rw [text, List.getLast?_append_of_ne_nil _ last.nonempty]
  exact fun ends => last.noSlash (List.mem_of_getLast? ends)

/-- Two slashes are the path of the root when both are kept. -/
theorem render_eq_slashes_iff {slashes : Nat} {stack : List (List α)}
    (pieces : ∀ entry ∈ stack, marks.Piece entry) :
    marks.render slashes stack = [marks.slash, marks.slash] ↔ slashes = 2 ∧ stack = [] := by
  constructor
  · intro same
    rw [render] at same
    split at same
    · exact absurd (List.cons.inj same).2.symm (List.cons_ne_nil _ _)
    · match slashes with
      | 0 => exact absurd same (intercalate_ne_slash pieces _)
      | 1 => exact absurd (List.cons.inj same).2 (intercalate_ne_slash pieces _)
      | slashes + 2 =>
          simp only [List.replicate_succ, List.cons_append, List.cons.injEq, true_and,
            List.append_eq_nil_iff, List.replicate_eq_nil_iff] at same
          obtain ⟨none, empty⟩ := same
          exact ⟨by rw [none], eq_nil_of_pieces pieces empty⟩
  · rintro ⟨rfl, rfl⟩
    simp [render]

variable [DecidableEq α] (marks)

/-- The kernel goes through the components of a path from one directory to another. It follows
links, and the last list has the links that it has met. -/
inductive Resolves (space : Namespace α) :
    List (List α) → List (List α) → List (List α) → List (List (List α)) → Prop
  | done (position : List (List α)) : Resolves space position [] position []
  | stay {position rest found : List (List α)} {component : List α} {met : List (List (List α))} :
      component = [] ∨ component = [marks.dot] → Resolves space position rest found met →
      Resolves space position (component :: rest) found met
  -- The root is its own parent.
  | parent {position rest found : List (List α)} {met : List (List (List α))} :
      Resolves space position.dropLast rest found met →
      Resolves space position ([marks.dot, marks.dot] :: rest) found met
  | enter {position rest found : List (List α)} {name : List α} {met : List (List (List α))} :
      marks.Valid name → space (position ++ [name]) = some .directory →
      Resolves space (position ++ [name]) rest found met →
      Resolves space position (name :: rest) found met
  | follow {position rest found : List (List α)} {name target : List α}
      {met : List (List (List α))} :
      marks.Valid name → space (position ++ [name]) = some (.link target) →
      Resolves space (if marks.isabs target then [] else position)
        (target.splitOn marks.slash ++ rest) found met →
      Resolves space position (name :: rest) found ((position ++ [name]) :: met)

variable {marks}

section Components

variable {stack names found position : List (List α)} {component path : List α}

/-- The last component is not the parent if all components are names. -/
theorem push_parent (valid : ∀ name ∈ stack, marks.Valid name) :
    marks.push true stack [marks.dot, marks.dot] = stack.dropLast := by
  have last : stack.getLast? ≠ some [marks.dot, marks.dot] := by
    intro parent
    exact (valid _ (List.mem_of_getLast? parent)).notParent rfl
  simp [push, last]

/-- Without a link a path leads where its components say. -/
theorem Resolves.lexical {space : Namespace α} {components : List (List α)}
    {met : List (List (List α))} (resolves : marks.Resolves space position components found met)
    (plain : met = []) (valid : ∀ name ∈ position, marks.Valid name) :
    components.foldl (marks.push true) position = found := by
  induction resolves with
  | done position => rfl
  | stay same _ ih =>
      rw [List.foldl_cons, push, if_pos same]
      exact ih plain valid
  | parent _ ih =>
      rw [List.foldl_cons, push_parent valid]
      exact ih plain fun name member => valid name (List.dropLast_subset _ member)
  | enter named _ _ ih =>
      rw [List.foldl_cons, push_valid named]
      apply ih plain
      intro name member
      rcases List.mem_append.mp member with before | last
      · exact valid name before
      · exact List.mem_singleton.mp last ▸ named
  | follow _ _ _ _ => contradiction

end Components

section Pieces

variable {first second stack root names : List (List α)} {component name path : List α}

theorem not_mem_of_mem_splitOn (separator : α) (member : component ∈ path.splitOn separator) :
    separator ∉ component := by
  induction path generalizing component with
  | nil =>
      obtain rfl : component = [] := by simpa using member
      exact List.not_mem_nil
  | cons first rest ih =>
      rw [List.splitOn_cons_eq_if_modifyHead] at member
      split at member
      · rcases List.mem_cons.mp member with rfl | later
        · exact List.not_mem_nil
        · exact ih later
      · rename_i different
        obtain ⟨head, tail, pieces⟩ := List.exists_cons_of_ne_nil (List.splitOn_ne_nil separator rest)
        rw [pieces, List.modifyHead_cons] at member
        rcases List.mem_cons.mp member with rfl | later
        · have inside := ih (pieces ▸ List.mem_cons_self)
          simp only [List.mem_cons, not_or]
          exact ⟨fun same => different (by simp [same]), inside⟩
        · exact ih (pieces ▸ List.mem_cons_of_mem _ later)

theorem push_pieces {rooted : Bool} (pieces : ∀ entry ∈ stack, marks.Piece entry)
    (plain : marks.slash ∉ component) :
    ∀ entry ∈ marks.push rooted stack component, marks.Piece entry := by
  intro entry member
  unfold push at member
  split at member
  · exact pieces entry member
  · rename_i proper
    split at member
    · rcases List.mem_append.mp member with before | last
      · exact pieces entry before
      · obtain rfl := List.mem_singleton.mp last
        exact ⟨fun empty => proper (.inl empty), plain⟩
    · exact pieces entry (List.dropLast_subset _ member)

theorem components_pieces (path : List α) : ∀ entry ∈ marks.components path, marks.Piece entry := by
  have kept : ∀ (list stack : List (List α)), (∀ component ∈ list, marks.slash ∉ component) →
      (∀ entry ∈ stack, marks.Piece entry) →
      ∀ entry ∈ list.foldl (marks.push (marks.initialSlashes path != 0)) stack, marks.Piece entry := by
    intro list
    induction list with
    | nil => exact fun _ _ pieces => pieces
    | cons component others ih =>
        intro stack plain pieces
        exact ih _ (fun other member => plain other (List.mem_cons_of_mem _ member))
          (push_pieces pieces (plain component List.mem_cons_self))
  exact kept _ [] (fun _ member => not_mem_of_mem_splitOn _ member)
    fun _ member => absurd member List.not_mem_nil

theorem pieces_injective (left : ∀ entry ∈ first, marks.Piece entry)
    (right : ∀ entry ∈ second, marks.Piece entry) (begins : first ≠ []) (ends : second ≠ [])
    (same : [marks.slash].intercalate first = [marks.slash].intercalate second) : first = second := by
  have split := congrArg (List.splitOn marks.slash) same
  rwa [List.splitOn_intercalate _ (fun entry member => (left entry member).noSlash) begins,
    List.splitOn_intercalate _ (fun entry member => (right entry member).noSlash) ends] at split

/-- A path has the text of a canonical one only with the same components. -/
theorem render_eq_canonical_iff {slashes : Nat} (pieces : ∀ entry ∈ stack, marks.Piece entry)
    (valid : ∀ entry ∈ root, marks.Valid entry) :
    marks.render slashes stack = marks.canonical root ↔ slashes = 1 ∧ stack = root := by
  have resolved : ∀ entry ∈ root, marks.Piece entry := fun entry member => (valid entry member).piece
  constructor
  · intro same
    rw [canonical_eq, render] at same
    split at same
    · exact absurd (List.cons.inj same).1.symm marks.different
    · match slashes with
      | 0 => exact absurd same (intercalate_ne_slash pieces _)
      | 1 =>
          have joined := (List.cons.inj same).2
          refine ⟨rfl, ?_⟩
          by_cases begins : stack = []
          · subst begins
            exact (eq_nil_of_pieces resolved joined.symm).symm
          · by_cases ends : root = []
            · subst ends
              exact eq_nil_of_pieces pieces joined
            · exact pieces_injective pieces resolved begins ends joined
      | slashes + 2 =>
          rw [List.replicate_succ, List.cons_append, List.cons.injEq, List.replicate_succ] at same
          exact absurd same.2.symm (intercalate_ne_slash resolved _)
  · rintro ⟨rfl, rfl⟩
    rfl

/-- The path of a file and its directory's canonical path with a slash and the name are the same
text in two cases. -/
theorem render_eq_iff {slashes : Nat} {below : List (List α)}
    (pieces : ∀ entry ∈ stack, marks.Piece entry) (valid : ∀ entry ∈ root, marks.Valid entry)
    (inside : ∀ entry ∈ below, marks.Valid entry) (named : marks.Valid name) :
    marks.render slashes (stack ++ (below ++ [name])) =
        marks.canonical (root ++ below) ++ marks.slash :: name ↔
      (slashes = 1 ∧ stack = root ∧ root ++ below ≠ []) ∨
        (slashes = 2 ∧ stack = [] ∧ root ++ below = []) := by
  have lexical : ∀ entry ∈ stack ++ (below ++ [name]), marks.Piece entry := by
    intro entry member
    simp only [List.mem_append, List.mem_singleton] at member
    rcases member with before | between | rfl
    · exact pieces entry before
    · exact (inside entry between).piece
    · exact named.piece
  have more : stack ++ (below ++ [name]) ≠ [] := by simp
  have text : marks.render slashes (stack ++ (below ++ [name])) =
      List.replicate slashes marks.slash ++ [marks.slash].intercalate (stack ++ (below ++ [name])) := by
    refine if_neg ?_
    intro empty
    have joined := (List.append_eq_nil_iff.mp empty).2
    rw [← List.append_assoc] at joined
    exact absurd (eq_nil_of_append (fun _ member => List.mem_singleton.mp member ▸ named) joined)
      (List.cons_ne_nil _ _)
  rw [text, canonical_eq, List.cons_append]
  cases slashes with
  | zero =>
      rw [List.replicate_zero, List.nil_append]
      exact iff_of_false (intercalate_ne_slash lexical _) (by simp)
  | succ slashes =>
      rw [List.replicate_succ, List.cons_append, List.cons.injEq, eq_self_iff_true, true_and]
      by_cases top : root ++ below = []
      · obtain ⟨rfl, rfl⟩ := List.append_eq_nil_iff.mp top
        rw [List.nil_append] at lexical more ⊢
        rw [List.append_nil, List.intercalate_nil, List.nil_append]
        match slashes with
        | 0 => exact iff_of_false (intercalate_ne_slash lexical _) (by simp)
        | 1 =>
            have single : [marks.slash].intercalate [name] = name := by simp
            rw [List.replicate_one, List.singleton_append, List.cons.injEq, and_iff_right rfl]
            constructor
            · intro same
              have only := pieces_injective lexical (fun _ member => List.mem_singleton.mp member ▸
                named.piece) more (List.cons_ne_nil _ _) (same.trans single.symm)
              exact .inr ⟨rfl, List.append_left_eq_self.mp only, rfl⟩
            · rintro (⟨wrong, _⟩ | ⟨_, rfl, _⟩)
              · contradiction
              · exact single
        | slashes + 2 =>
            refine iff_of_false ?_ (by simp)
            intro same
            rw [List.replicate_succ, List.cons_append, List.cons.injEq, List.replicate_succ] at same
            exact named.noSlash (same.2 ▸ List.mem_cons_self)
      · have joined : [marks.slash].intercalate (root ++ below) ++ marks.slash :: name =
            [marks.slash].intercalate (root ++ (below ++ [name])) := by
          rw [← List.append_assoc, intercalate_append top (List.cons_ne_nil _ _)]
          simp
        have resolved : ∀ entry ∈ root ++ (below ++ [name]), marks.Piece entry := by
          intro entry member
          simp only [List.mem_append, List.mem_singleton] at member
          rcases member with before | between | rfl
          · exact (valid entry before).piece
          · exact (inside entry between).piece
          · exact named.piece
        rw [joined]
        cases slashes with
        | zero =>
            rw [List.replicate_zero, List.nil_append]
            constructor
            · intro same
              have lists := pieces_injective lexical resolved more (by simp) same
              exact .inl ⟨rfl, List.append_cancel_right lists, top⟩
            · rintro (⟨_, rfl, _⟩ | ⟨wrong, _⟩)
              · rfl
              · contradiction
        | succ slashes =>
            rw [List.replicate_succ, List.cons_append]
            refine iff_of_false ?_ (by simp [top])
            intro same
            exact intercalate_ne_slash resolved _ same.symm

/-- A file's path begins with a directory and a slash exactly if its names begin with those of the
directory. -/
theorem canonical_prefix_iff {directory : List (List α)} (valid : ∀ entry ∈ root, marks.Valid entry)
    (listed : ∀ entry ∈ directory, marks.Valid entry) (plain : marks.slash ∉ name) (inner : root ≠ []) :
    marks.canonical root ++ [marks.slash] <+: marks.canonical directory ++ marks.slash :: name ↔
      root <+: directory := by
  have rooted : marks.canonical root ++ [marks.slash] =
      marks.slash :: ([marks.slash].intercalate root ++ [marks.slash]) := by
    rw [canonical_eq, List.cons_append]
  rw [rooted, canonical_eq, List.cons_append, List.cons_prefix_cons, and_iff_right rfl]
  by_cases top : directory = []
  · subst top
    rw [List.prefix_nil, iff_false_right inner]
    rintro ⟨rest, same⟩
    have pieces : ∀ entry ∈ root, marks.Piece entry := fun entry member => (valid entry member).piece
    obtain ⟨first, others, begins⟩ : ∃ first others, [marks.slash].intercalate root = first :: others :=
      List.exists_cons_of_ne_nil fun empty => inner (eq_nil_of_pieces pieces empty)
    rw [begins, List.intercalate_nil, List.nil_append, List.cons_append, List.cons_append] at same
    obtain rfl := (List.cons.inj same).1
    exact intercalate_ne_slash pieces others begins
  · constructor
    · rintro ⟨rest, same⟩
      have split := congrArg (List.splitOn marks.slash) same
      rw [List.append_assoc, List.singleton_append, List.splitOn_append_cons_self,
        List.splitOn_append_cons_self, splitOn_names valid inner, splitOn_names listed top,
        List.splitOn_eq_singleton plain] at split
      rcases List.eq_nil_or_concat (rest.splitOn marks.slash) with empty | ⟨before, last, pieces⟩
      · exact absurd empty (List.splitOn_ne_nil _ _)
      · rw [pieces, List.concat_eq_append, ← List.append_assoc] at split
        exact ⟨before, (List.append_inj' split rfl).1⟩
    · rintro ⟨more, rfl⟩
      by_cases ends : more = []
      · subst ends
        rw [List.append_nil]
        exact ⟨name, by simp⟩
      · rw [intercalate_append inner ends]
        exact ⟨[marks.slash].intercalate more ++ marks.slash :: name, by simp⟩

end Pieces

section Absolute

variable {space : Namespace α} {cwd found : List (List α)} {path : List α}

theorem components_of_isabs (absolute : marks.isabs path = true) :
    marks.components path = (path.splitOn marks.slash).foldl (marks.push true) [] := by
  have rooted : (marks.initialSlashes path != 0) = true := by
    rw [initialSlashes, if_pos absolute]
    split <;> rfl
  rw [components, rooted]

/-- Names without a parent go on the stack. -/
theorem foldl_push_valid {names stack : List (List α)} (valid : ∀ name ∈ names, marks.Valid name) :
    names.foldl (marks.push true) stack = stack ++ names := by
  induction names generalizing stack with
  | nil => rw [List.foldl_nil, List.append_nil]
  | cons name others ih =>
      rw [List.foldl_cons, push_valid (valid name List.mem_cons_self),
        ih fun other member => valid other (List.mem_cons_of_mem _ member), List.append_assoc]
      rfl

/-- A relative path goes on from the current directory. -/
theorem join_canonical (valid : ∀ name ∈ cwd, marks.Valid name) (relative : marks.isabs path = false) :
    marks.initialSlashes (marks.join (marks.canonical cwd) path) = 1 ∧
      marks.components (marks.join (marks.canonical cwd) path) =
        (path.splitOn marks.slash).foldl (marks.push true) cwd := by
  by_cases top : cwd = []
  · subst top
    have joined : marks.join (marks.canonical []) path = [] ++ marks.slash :: path := by
      simp [join, relative, canonical_eq]
    rw [joined, components_of_isabs (by simp [isabs]), List.splitOn_append_cons_self,
      List.splitOn_nil, List.singleton_append, List.foldl_cons, push_nil]
    refine ⟨?_, rfl⟩
    cases path with
    | nil => simp [initialSlashes, isabs]
    | cons first rest =>
        have different : first ≠ marks.slash := by simpa [isabs] using relative
        simp [initialSlashes, isabs, List.cons_prefix_cons, different.symm]
  · have joined : marks.join (marks.canonical cwd) path =
        ([] ++ marks.slash :: [marks.slash].intercalate cwd) ++ marks.slash :: path := by
      have ends := getLast_canonical valid top
      rw [join, relative, if_neg Bool.false_ne_true, if_neg (not_or.mpr ⟨?_, ends⟩), canonical_eq,
        List.nil_append]
      rw [canonical_eq]
      exact List.cons_ne_nil _ _
    rw [joined, components_of_isabs (by simp [isabs]), List.splitOn_append_cons_self,
      List.splitOn_append_cons_self, List.splitOn_nil, splitOn_names valid top, List.foldl_append,
      List.singleton_append, List.foldl_cons, push_nil, foldl_push_valid valid, List.nil_append]
    refine ⟨?_, rfl⟩
    obtain ⟨head, tail, text⟩ : ∃ head tail, [marks.slash].intercalate cwd = head :: tail :=
      List.exists_cons_of_ne_nil fun empty => top (eq_nil_of_intercalate valid empty)
    have different : head ≠ marks.slash := by
      rintro rfl
      exact intercalate_ne_slash (fun name member => (valid name member).piece) tail text
    simp [initialSlashes, isabs, List.cons_prefix_cons, text, different.symm]

/-- Without a link on the way the absolute path is the canonical one, unless it begins with exactly
two slashes. -/
theorem abspath_eq_canonical (valid : ∀ name ∈ cwd, marks.Valid name)
    (resolves : marks.Resolves space (if marks.isabs path then [] else cwd)
      (path.splitOn marks.slash) found [])
    (single : marks.initialSlashes path ≠ 2) :
    marks.abspath (marks.canonical cwd) path = marks.canonical found := by
  rw [abspath, normpath]
  cases absolute : marks.isabs path with
  | true =>
      rw [absolute, if_pos rfl] at resolves
      have lexical := resolves.lexical rfl fun _ member => absurd member List.not_mem_nil
      have slashes : marks.initialSlashes path = 1 := by
        rw [initialSlashes, if_pos absolute] at single ⊢
        split at single
        · contradiction
        · rename_i more
          rw [if_neg more]
      rw [if_pos rfl, slashes, components_of_isabs absolute, lexical, canonical]
  | false =>
      rw [absolute, if_neg Bool.false_ne_true] at resolves
      have lexical := resolves.lexical rfl valid
      obtain ⟨slashes, components⟩ := join_canonical valid absolute
      rw [if_neg Bool.false_ne_true, slashes, components, lexical, canonical]

end Absolute

end Marks

end PosixPath
