import Mathlib.Data.List.Basic
import Mathlib.Data.List.TakeWhile
import Mathlib.Logic.Function.Basic

/-
This file defines backtracking regular expressions and the order of their attempts.
-/

namespace Backtrack

variable {α β : Type*}

/-- A repeat tries the most copies first or the fewest copies first. -/
inductive Preference where
  | greedy
  | lazy
  deriving DecidableEq, Repr

/-- These are the constructs of a pattern with numbered groups. -/
inductive Pattern (α : Type*) where
  | one (accepts : α → Bool)
  | literal (word : List α)
  | seq (first second : Pattern α)
  | alt (first second : Pattern α)
  | optional (body : Pattern α)
  | many (preference : Preference) (least : Nat) (accepts : α → Bool)
  | group (index : Nat) (body : Pattern α)

/-- A group holds the text of its last match. -/
abbrev Groups (α : Type*) := Nat → Option (List α)

/-- A repeat of a character class tries these counts in this order. -/
def counts (preference : Preference) (least available : Nat) : List Nat :=
  match preference with
  | .lazy => List.range' least (available + 1 - least)
  | .greedy => (List.range' least (available + 1 - least)).reverse

/-- The matcher hands each way to match to the rest of the match until one succeeds. -/
def Pattern.run [DecidableEq α] : Pattern α → Groups α → List α →
    (Groups α → List α → Option β) → Option β
  | .one accepts, groups, input, rest =>
      match input with
      | [] => none
      | symbol :: after => if accepts symbol then rest groups after else none
  | .literal word, groups, input, rest =>
      if word <+: input then rest groups (input.drop word.length) else none
  | .seq first second, groups, input, rest =>
      first.run groups input fun inner after => second.run inner after rest
  | .alt first second, groups, input, rest =>
      (first.run groups input rest).or (second.run groups input rest)
  | .optional body, groups, input, rest =>
      (body.run groups input rest).or (rest groups input)
  | .many preference least accepts, groups, input, rest =>
      (counts preference least (input.takeWhile accepts).length).findSome? fun count =>
        rest groups (input.drop count)
  | .group index body, groups, input, rest =>
      body.run groups input fun inner after =>
        rest (Function.update inner index (some (input.take (input.length - after.length)))) after

/-- A match at the start of the input returns the groups of the first success. -/
def Pattern.matchStart [DecidableEq α] (pattern : Pattern α) (input : List α) :
    Option (Groups α) :=
  pattern.run (fun _ => none) input fun groups _ => some groups

/-- A group takes the part of the input before the remaining text. -/
theorem take_remaining (input : List α) (count : Nat) :
    input.take (input.length - (input.drop count).length) = input.take count := by
  rw [List.length_drop, List.take_eq_take_iff]
  omega

/-- A group around a repeat captures the repeated symbols. -/
theorem run_group_many [DecidableEq α] (index : Nat) (preference : Preference) (least : Nat)
    (accepts : α → Bool) (groups : Groups α) (input : List α)
    (rest : Groups α → List α → Option β) :
    (Pattern.group index (.many preference least accepts)).run groups input rest =
      (counts preference least (input.takeWhile accepts).length).findSome? fun count =>
        rest (Function.update groups index (some (input.take count))) (input.drop count) := by
  rw [Pattern.run, Pattern.run]
  simp only [take_remaining]

/-- A lazy repeat returns a result that every earlier success agrees with. -/
theorem findSome_lazy {least available count : Nat} {attempt : Nat → Option β} {result : β}
    (low : least ≤ count) (high : count ≤ available) (found : attempt count = some result)
    (agrees : ∀ earlier, least ≤ earlier → earlier < count →
      attempt earlier = none ∨ attempt earlier = some result) :
    (counts .lazy least available).findSome? attempt = some result := by
  have split : List.range' least (available + 1 - least) =
      List.range' least (count - least) ++ count :: List.range' (count + 1) (available - count) := by
    have parts : List.range' least (count - least) ++
        List.range' (least + (count - least)) (available - count + 1) =
          List.range' least (count - least + (available - count + 1)) := List.range'_append_1
    rw [show least + (count - least) = count by omega,
      show count - least + (available - count + 1) = available + 1 - least by omega,
      List.range'_succ] at parts
    exact parts.symm
  rw [counts, split, List.findSome?_append]
  cases earlier : (List.range' least (count - least)).findSome? attempt with
  | none => simp [found]
  | some other =>
      obtain ⟨index, member, succeeded⟩ := List.exists_of_findSome?_eq_some earlier
      rw [List.mem_range'_1] at member
      rcases agrees index member.1 (by omega) with failed | agreed
      · rw [failed] at succeeded
        contradiction
      · rw [← succeeded, agreed]
        rfl

/-- Captures do not change which attempt of a repeat succeeds. -/
theorem findSome_capture {γ : Type*} (tries : List Nat) (attempt : Nat → Option β)
    (capture : Nat → β → γ) :
    (∀ result, tries.findSome? attempt = some result → ∃ count,
      (tries.findSome? fun count => (attempt count).map (capture count)) =
        some (capture count result)) ∧
    (tries.findSome? attempt = none →
      (tries.findSome? fun count => (attempt count).map (capture count)) = none) := by
  induction tries with
  | nil => simp
  | cons first tries ih =>
      cases tried : attempt first with
      | none => simpa [List.findSome?_cons, tried] using ih
      | some value =>
          simp only [List.findSome?_cons, tried, Option.map_some, Option.some.injEq]
          refine ⟨?_, by simp⟩
          rintro result rfl
          exact ⟨first, rfl⟩

/-- A greedy repeat that only succeeds at its largest count returns that success. -/
theorem findSome_greedy {least available : Nat} {attempt : Nat → Option β}
    (room : least ≤ available)
    (fails : ∀ count, least ≤ count → count < available → attempt count = none) :
    (counts .greedy least available).findSome? attempt = attempt available := by
  have last : (List.range' least (available + 1 - least)).reverse =
      available :: (List.range' least (available - least)).reverse := by
    rw [show available + 1 - least = (available - least) + 1 by omega, List.range'_concat]
    simp only [List.reverse_append, List.reverse_cons, List.reverse_nil, List.nil_append,
      List.singleton_append, Nat.one_mul]
    rw [show least + (available - least) = available by omega]
  have missed : (List.range' least (available - least)).reverse.findSome? attempt = none := by
    rw [List.findSome?_eq_none_iff]
    intro count member
    rw [List.mem_reverse, List.mem_range'_1] at member
    exact fails count member.1 (by omega)
  rw [counts, last, List.findSome?_cons]
  cases attempt available with
  | none => exact missed
  | some result => rfl

end Backtrack
