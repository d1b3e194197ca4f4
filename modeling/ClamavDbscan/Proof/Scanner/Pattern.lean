import ClamavDbscan.Construction.Scanner.Reply

namespace ClamavDbscan

open Backtrack

/-- These are the alternatives of the last group. -/
def statusWords : List Str := [text "ERROR", text "OK", text "FOUND"]

/-- At most one status word begins at the start of a text. -/
def wordAt (input : Str) : Option Str := statusWords.find? fun word => word.isPrefixOf input

/-- The last two parts of the pattern skip white space and read a status word. -/
def statusAt (input : Str) : Option Str := wordAt (input.dropWhile isSpace)

/-- The pattern reads this status after the colon and its white space. -/
def tailStatus (input : Str) : Option Str :=
  ((counts .lazy 1 (input.takeWhile dot).length).findSome? fun count =>
    statusAt (input.drop count)).or (statusAt input)

theorem statusWords_ne_nil {word : Str} (member : word ∈ statusWords) : word ≠ [] := by
  revert word
  decide

theorem statusWords_solid {word : Str} (member : word ∈ statusWords) :
    ∀ point ∈ word, isSpace point = false := by
  have all : (statusWords.all fun entry => entry.all fun point => !isSpace point) = true := by decide
  simpa using List.all_eq_true.mp (List.all_eq_true.mp all word member)

/-- No status word begins another one. -/
theorem statusWords_incomparable {first second : Str} (left : first ∈ statusWords)
    (right : second ∈ statusWords) (begins : first <+: second) : first = second := by
  have all : ∀ left ∈ statusWords, ∀ right ∈ statusWords, left <+: right → left = right := by decide
  exact all first left second right begins

theorem wordAt_eq_some_iff {input word : Str} :
    wordAt input = some word ↔ word ∈ statusWords ∧ word <+: input := by
  constructor
  · intro found
    refine ⟨List.mem_of_find?_eq_some found, ?_⟩
    simpa using List.find?_some found
  · rintro ⟨member, begins⟩
    cases found : wordAt input with
    | none =>
        have missed := List.find?_eq_none.mp found word member
        simp [begins] at missed
    | some other =>
        have otherMember : other ∈ statusWords := List.mem_of_find?_eq_some found
        have otherBegins : other <+: input := by simpa using List.find?_some found
        rcases List.prefix_or_prefix_of_prefix begins otherBegins with inside | inside
        · rw [statusWords_incomparable member otherMember inside]
        · rw [statusWords_incomparable otherMember member inside]

/-- No status word begins at white space. -/
theorem wordAt_space {point : CodePoint} (white : isSpace point = true) (rest : Str) :
    wordAt (point :: rest) = none := by
  rw [Option.eq_none_iff_forall_ne_some]
  intro word found
  obtain ⟨member, begins⟩ := wordAt_eq_some_iff.mp found
  cases word with
  | nil => exact statusWords_ne_nil member rfl
  | cons head tail =>
      have same : head = point := (List.cons_prefix_cons.mp begins).1
      have solid := statusWords_solid member head List.mem_cons_self
      rw [same, white] at solid
      contradiction

theorem statusAt_space {point : CodePoint} (white : isSpace point = true) (rest : Str) :
    statusAt (point :: rest) = statusAt rest := by
  simp [statusAt, white]

theorem statusAt_solid {point : CodePoint} (solid : isSpace point = false) (rest : Str) :
    statusAt (point :: rest) = wordAt (point :: rest) := by
  simp [statusAt, solid]

theorem statusAt_of_word {input word : Str} (found : wordAt input = some word) :
    statusAt input = some word := by
  cases input with
  | nil => exact found
  | cons point rest =>
      cases white : isSpace point with
      | false => rw [statusAt_solid white, found]
      | true =>
          rw [wordAt_space white] at found
          contradiction

/-- The last group captures the status word at its position. -/
theorem run_word (groups : Groups CodePoint) (input : Str) :
    (Pattern.group 3 (.alt (.literal (text "ERROR"))
      (.alt (.literal (text "OK")) (.literal (text "FOUND"))))).run groups input
        (fun inner _ => some inner) =
      (wordAt input).map fun word => Function.update groups 3 (some word) := by
  have literal (word : Str) : (if word <+: input then
      some (Function.update groups 3
        (some (input.take (input.length - (input.drop word.length).length)))) else none) =
      if word.isPrefixOf input then some (Function.update groups 3 (some word)) else none := by
    by_cases begins : word <+: input
    · rw [if_pos begins, take_remaining, ← List.prefix_iff_eq_take.mp begins,
        if_pos (by simpa using begins)]
    · rw [if_neg begins, if_neg (by simpa using begins)]
  simp only [Pattern.run, literal, wordAt, statusWords, List.find?_cons, List.find?_nil]
  cases (text "ERROR").isPrefixOf input <;> cases (text "OK").isPrefixOf input <;>
    cases (text "FOUND").isPrefixOf input <;> rfl

/-- Only the longest run of white space can stand before a status word. -/
theorem run_status (groups : Groups CodePoint) (input : Str) :
    (Pattern.seq (.many .greedy 0 isSpace) (.group 3 (.alt (.literal (text "ERROR"))
      (.alt (.literal (text "OK")) (.literal (text "FOUND")))))).run groups input
        (fun inner _ => some inner) =
      (statusAt input).map fun word => Function.update groups 3 (some word) := by
  have split := List.takeWhile_append_dropWhile (p := isSpace) (l := input)
  rw [Pattern.run, Pattern.run]
  simp only [run_word]
  rw [findSome_greedy (Nat.zero_le _)]
  · have dropped : input.drop (input.takeWhile isSpace).length = input.dropWhile isSpace := by
      have left : (input.takeWhile isSpace ++ input.dropWhile isSpace).drop
          (input.takeWhile isSpace).length = input.dropWhile isSpace := List.drop_left
      rwa [split] at left
    rw [dropped]
    rfl
  · intro count _ short
    have white : isSpace (input.takeWhile isSpace)[count] = true :=
      List.mem_takeWhile_imp (List.getElem_mem short)
    conv_lhs => rw [← split]
    rw [List.drop_append_of_le_length (Nat.le_of_lt short), List.drop_eq_getElem_cons short,
      List.cons_append, wordAt_space white]
    rfl

/-- The tail of the pattern captures the status that it reads. -/
theorem run_tail (groups : Groups CodePoint) (input : Str) :
    ((Pattern.seq (.optional (.group 2 (.many .lazy 1 dot))) (.seq (.many .greedy 0 isSpace)
      (.group 3 (.alt (.literal (text "ERROR")) (.alt (.literal (text "OK"))
        (.literal (text "FOUND"))))))).run groups input fun inner _ => some inner) =
      ((counts .lazy 1 (input.takeWhile dot).length).findSome? fun count =>
        (statusAt (input.drop count)).map fun word =>
          Function.update (Function.update groups 2 (some (input.take count))) 3 (some word)).or
        ((statusAt input).map fun word => Function.update groups 3 (some word)) := by
  rw [Pattern.run, Pattern.run]
  simp only [run_status, run_group_many]

/-- No colon of this text stands before white space. -/
def ColonSpaceFree (string : Str) : Prop :=
  ∀ before point after, string = before ++ colon :: point :: after → isSpace point = false

/-- The symbols at an offset and behind it decide the property. -/
theorem colonSpaceFree_iff (string : Str) :
    ColonSpaceFree string ↔ ∀ offset < string.length, string[offset]? = some colon →
      ∀ inside : offset + 1 < string.length, isSpace string[offset + 1] = false := by
  constructor
  · intro free offset inside here further
    obtain ⟨_, same⟩ := List.getElem?_eq_some_iff.mp here
    apply free (string.take offset) _ (string.drop (offset + 2))
    rw [← same, ← List.drop_eq_getElem_cons further, ← List.drop_eq_getElem_cons inside,
      List.take_append_drop]
  · rintro checked before point after rfl
    have solid := checked before.length (by simp) (by simp) (by simp)
    simpa using solid

instance (string : Str) : Decidable (ColonSpaceFree string) :=
  decidable_of_iff' _ (colonSpaceFree_iff string)

theorem ColonSpaceFree.tail {string : Str} (free : ColonSpaceFree string) :
    ColonSpaceFree string.tail := by
  intro before point after same
  cases string with
  | nil => simp at same
  | cons head rest =>
      change rest = before ++ colon :: point :: after at same
      exact free (head :: before) point after (by rw [same, List.cons_append])

/-- The pattern goes on after a colon and white space, and nowhere else. -/
theorem run_separator {β : Type*} (tail : Pattern CodePoint) (groups : Groups CodePoint)
    (input : Str) (rest : Groups CodePoint → Str → Option β) :
    (Pattern.seq (.literal [colon]) (.seq (.one isSpace) tail)).run groups input rest =
      match input with
      | first :: second :: after =>
          if first = colon ∧ isSpace second = true then tail.run groups after rest else none
      | _ => none := by
  cases input with
  | nil => simp [Pattern.run]
  | cons first input =>
      cases input with
      | nil => by_cases same : colon = first <;> simp [Pattern.run, same]
      | cons second after =>
          by_cases same : first = colon
          · subst first
            simp [Pattern.run]
          · simp [Pattern.run, same, Ne.symm same]

/-- The tail keeps the earlier groups and captures the status. -/
theorem run_tail_some (groups : Groups CodePoint) {body status : Str}
    (found : tailStatus body = some status) :
    ∃ final, ((Pattern.seq (.optional (.group 2 (.many .lazy 1 dot)))
      (.seq (.many .greedy 0 isSpace) (.group 3 (.alt (.literal (text "ERROR"))
        (.alt (.literal (text "OK")) (.literal (text "FOUND"))))))).run groups body
          fun inner _ => some inner) = some final ∧
      final 1 = groups 1 ∧ final 3 = some status := by
  rw [run_tail]
  obtain ⟨captured, missed⟩ := findSome_capture (counts .lazy 1 (body.takeWhile dot).length)
    (fun count => statusAt (body.drop count)) fun count word =>
      Function.update (Function.update groups 2 (some (body.take count))) 3 (some word)
  rw [tailStatus, Option.or_eq_some_iff] at found
  rcases found with lazily | ⟨failed, directly⟩
  · obtain ⟨count, same⟩ := captured status lazily
    exact ⟨_, by rw [same]; rfl, by simp, by simp⟩
  · exact ⟨Function.update groups 3 (some status), by rw [missed failed, directly]; rfl,
      by simp, by simp⟩

/-- The tail captures only the second and the third group. -/
theorem run_tail_first {groups final : Groups CodePoint} {body : Str}
    (matched : ((Pattern.seq (.optional (.group 2 (.many .lazy 1 dot)))
      (.seq (.many .greedy 0 isSpace) (.group 3 (.alt (.literal (text "ERROR"))
        (.alt (.literal (text "OK")) (.literal (text "FOUND"))))))).run groups body
          fun inner _ => some inner) = some final) : final 1 = groups 1 := by
  rw [run_tail, Option.or_eq_some_iff] at matched
  rcases matched with lazily | ⟨_, directly⟩
  · obtain ⟨count, _, captured⟩ := List.exists_of_findSome?_eq_some lazily
    obtain ⟨word, _, rfl⟩ := Option.map_eq_some_iff.mp captured
    simp
  · obtain ⟨word, _, rfl⟩ := Option.map_eq_some_iff.mp directly
    simp

/-- The first group of a match is a nonempty start of the line. -/
theorem matchStart_filename {line : Str} {groups : Groups CodePoint}
    (matched : scanResultsRe.matchStart line = some groups) :
    ∃ count, 1 ≤ count ∧ count ≤ (line.takeWhile dot).length ∧
      groups 1 = some (line.take count) := by
  rw [Pattern.matchStart, scanResultsRe, Pattern.run, run_group_many] at matched
  obtain ⟨count, member, succeeded⟩ := List.exists_of_findSome?_eq_some matched
  rw [counts, List.mem_range'_1] at member
  refine ⟨count, member.1, by omega, ?_⟩
  rw [run_separator] at succeeded
  split at succeeded
  · split at succeeded
    · simpa using run_tail_first succeeded
    · contradiction
  · contradiction

theorem matchStart_filename_ne_nil {line : Str} {groups : Groups CodePoint}
    (matched : scanResultsRe.matchStart line = some groups) : groups 1 ≠ some [] := by
  obtain ⟨count, low, high, first⟩ := matchStart_filename matched
  have bound := (List.takeWhile_prefix dot (l := line)).length_le
  rw [first, ne_eq, Option.some.injEq]
  intro empty
  have lengths := congrArg List.length empty
  simp only [List.length_nil, List.length_take] at lengths
  omega

/-- The file name of a match has no newline. -/
theorem matchStart_filename_oneLine {line filename : Str} {groups : Groups CodePoint}
    (matched : scanResultsRe.matchStart line = some groups) (first : groups 1 = some filename) :
    newline ∉ filename := by
  obtain ⟨count, _, high, taken⟩ := matchStart_filename matched
  obtain rfl := Option.some.inj (first.symm.trans taken)
  have inside : line.take count <+: line.takeWhile dot := by
    refine List.prefix_of_prefix_length_le (List.take_prefix _ _) (List.takeWhile_prefix dot) ?_
    exact (List.length_take_le _ _).trans high
  intro member
  have dotted := List.mem_takeWhile_imp (inside.subset member)
  exact absurd dotted (by decide)

/-- The lazy first group takes one symbol and ends at the next colon before white space. -/
theorem matchStart_line {path : Str} {white : CodePoint} {body status : Str}
    (named : path ≠ []) (oneLine : newline ∉ path) (free : ColonSpaceFree path.tail)
    (isWhite : isSpace white = true) (found : tailStatus body = some status) :
    ∃ groups, scanResultsRe.matchStart (path ++ colon :: white :: body) = some groups ∧
      groups 1 = some path ∧ groups 3 = some status := by
  obtain ⟨final, matched, first, third⟩ := run_tail_some
    (Function.update (fun _ => none) 1 (some path)) found
  refine ⟨final, ?_, by simpa using first, third⟩
  rw [Pattern.matchStart, scanResultsRe, Pattern.run, run_group_many]
  simp only [run_separator]
  have room : path.length ≤ ((path ++ colon :: white :: body).takeWhile dot).length := by
    rw [List.takeWhile_append_of_pos]
    · simp
    · intro point member
      simp only [dot, bne_iff_ne, ne_eq]
      intro same
      exact oneLine (same ▸ member)
  apply findSome_lazy (List.length_pos_iff.mpr named) room
  · simpa [isWhite] using matched
  · intro count positive short
    left
    have split : (path.take count).tail ++ path[count] :: path.drop (count + 1) = path.tail := by
      rw [← List.drop_eq_getElem_cons short, ← List.tail_append_of_ne_nil,
        List.take_append_drop]
      exact List.ne_nil_of_length_pos (by rw [List.length_take]; omega)
    rw [List.drop_append_of_le_length (Nat.le_of_lt short), List.drop_eq_getElem_cons short]
    cases after : path.drop (count + 1) with
    | nil => simp [show isSpace colon = false by decide]
    | cons second tail =>
        rw [after] at split
        have apart : ¬ (path[count] = colon ∧ isSpace second = true) := by
          rintro ⟨same, white⟩
          rw [same] at split
          rw [free _ _ _ split.symm] at white
          contradiction
        simp [apart]

end ClamavDbscan
