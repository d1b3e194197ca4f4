import ClamavDbscan.Proof.Scanner.Verdict

/-
This file decides which file names the parser of a reply gets back.
-/

namespace ClamavDbscan

/-- The pattern returns this path, and neither assertion of the scan fails. -/
def ReplyParsed (path : Str) (reply : ReplyLine) : Prop :=
  (∃ groups, scanResultsRe.matchStart (reply.line path) = some groups ∧ groups 1 = some path) ∧
    ∀ stat rest now, (rest = [] ∨ ∃ more, rest = newline :: more) →
      ∃ metadata, parseReply path stat (replyLines (reply.line path ++ rest)) now = .ok metadata

/-- A text with a colon before white space splits at the first such colon. -/
theorem exists_first_separator {string : Str} (blocked : ¬ ColonSpaceFree string) :
    ∃ before point after, string = before ++ colon :: point :: after ∧
      isSpace point = true ∧ ColonSpaceFree before := by
  induction string with
  | nil =>
      apply absurd _ blocked
      intro before point after same
      simp at same
  | cons head rest ih =>
      by_cases here : ∃ point after, head = colon ∧ rest = point :: after ∧ isSpace point = true
      · obtain ⟨point, after, rfl, rfl, white⟩ := here
        refine ⟨[], point, after, rfl, white, ?_⟩
        intro before inner behind same
        simp at same
      · have later : ¬ ColonSpaceFree rest := by
          intro free
          apply blocked
          intro before point after same
          cases before with
          | nil =>
              obtain ⟨first, second⟩ := List.cons_eq_cons.mp same
              by_contra solid
              exact here ⟨point, after, first, second, by simpa using solid⟩
          | cons other before =>
              exact free before point after (List.cons_eq_cons.mp same).2
        obtain ⟨before, point, after, rfl, white, free⟩ := ih later
        refine ⟨head :: before, point, after, rfl, white, ?_⟩
        intro start inner behind same
        cases start with
        | nil =>
            obtain ⟨first, second⟩ := List.cons_eq_cons.mp same
            by_contra solid
            apply here
            refine ⟨inner, behind ++ colon :: point :: after, first, ?_, by simpa using solid⟩
            rw [second, List.cons_append]
        | cons other start =>
            exact free start inner behind (List.cons_eq_cons.mp same).2

/-- Every reply line ends in white space and a status word. -/
theorem ReplyLine.body_ends (reply : ReplyLine) :
    ∃ middle last, colon :: space :: reply.body = middle ++ space :: last ∧
      newline ∉ middle ∧ last ∈ statusWords := by
  cases reply with
  | ok => exact ⟨[colon], text "OK", rfl, by decide, by decide⟩
  | found signature =>
      refine ⟨colon :: space :: signature.name, text "FOUND", rfl, ?_, by decide⟩
      simp [signature.no_newline, show newline ≠ colon by decide, show newline ≠ space by decide]
  | error message =>
      refine ⟨colon :: space :: message.content, text "ERROR", rfl, ?_, by decide⟩
      simp [message.oneLine, show newline ≠ colon by decide, show newline ≠ space by decide]

/-- A separator behind the first symbol of the path cuts the file name. -/
theorem matchStart_cut {head point : CodePoint} {before after : Str} (reply : ReplyLine)
    (oneLine : newline ∉ head :: before ++ colon :: point :: after)
    (white : isSpace point = true) (free : ColonSpaceFree before) :
    ∃ groups, scanResultsRe.matchStart
        (reply.line (head :: before ++ colon :: point :: after)) = some groups ∧
      groups 1 = some (head :: before) := by
  simp only [List.cons_append, List.mem_cons, List.mem_append, not_or] at oneLine
  obtain ⟨notHead, notBefore, _, _, notAfter⟩ := oneLine
  obtain ⟨middle, last, ends, bodyLine, member⟩ := reply.body_ends
  have inside : newline ∉ after ++ middle := by simp [notAfter, bodyLine]
  obtain ⟨status, _, _, _, _, _, read⟩ := tailStatus_middle last inside member
  obtain ⟨groups, matched, first, _⟩ := matchStart_line (List.cons_ne_nil head before)
    (by simp [notHead, notBefore]) free white read
  refine ⟨groups, ?_, first⟩
  rw [← matched, List.append_assoc, ← ends]
  simp [ReplyLine.line]

/-- A path that the pattern returns has no separator behind its first symbol. -/
theorem free_of_matched {path : Str} {reply : ReplyLine} {groups : Backtrack.Groups CodePoint}
    (oneLine : newline ∉ path)
    (matched : scanResultsRe.matchStart (reply.line path) = some groups)
    (first : groups 1 = some path) : path ≠ [] ∧ ColonSpaceFree path.tail := by
  have named : path ≠ [] := by
    rintro rfl
    exact matchStart_filename_ne_nil matched first
  refine ⟨named, ?_⟩
  by_contra blocked
  obtain ⟨before, point, after, same, white, free⟩ := exists_first_separator blocked
  obtain ⟨head, rest, rfl⟩ := List.exists_cons_of_ne_nil named
  obtain rfl : rest = before ++ colon :: point :: after := same
  obtain ⟨others, cut, shorter⟩ := matchStart_cut reply oneLine white free
  rw [List.cons_append, matched, Option.some.injEq] at cut
  rw [← cut, first, Option.some.injEq] at shorter
  have lengths := congrArg List.length shorter
  simp at lengths

/-- A file name survives exactly when no colon behind its first symbol stands before space. -/
theorem reply_parsed_iff (path : Str) (reply : ReplyLine) (oneLine : newline ∉ path) :
    ReplyParsed path reply ↔ path ≠ [] ∧ ColonSpaceFree path.tail := by
  constructor
  · rintro ⟨⟨groups, matched, first⟩, _⟩
    exact free_of_matched oneLine matched first
  · rintro ⟨named, free⟩
    obtain ⟨status, read, _⟩ := reply.status
    obtain ⟨groups, matched, first, _⟩ :=
      matchStart_line named oneLine free (show isSpace space = true by decide) read
    refine ⟨⟨groups, matched, first⟩, ?_⟩
    intro stat rest now ends
    obtain ⟨results, parsed⟩ := parseReply_line named oneLine free read ends stat now
    exact ⟨_, parsed⟩

/-- A scan gets a status for this path from a reply line of clamd. -/
structure Readable (path : Str) : Prop where
  named : path ≠ []
  oneLine : newline ∉ path
  free : ColonSpaceFree path.tail

instance (path : Str) : Decidable (Readable path) :=
  decidable_of_iff (path ≠ [] ∧ newline ∉ path ∧ ColonSpaceFree path.tail)
    ⟨fun ⟨named, oneLine, free⟩ => ⟨named, oneLine, free⟩,
      fun ⟨named, oneLine, free⟩ => ⟨named, oneLine, free⟩⟩

/-- The path of a parsed reply is readable, and the line decides whether its status is right. -/
theorem parseReply_status {path rest now : Str} {reply : ReplyLine} {stat : StatResult}
    {result : ClamAVDBFileMetadata} (ends : rest = [] ∨ ∃ more, rest = newline :: more)
    (parsed : parseReply path stat (replyLines (reply.line path ++ rest)) now = .ok result) :
    Readable path ∧ (result.status = reply.lastWord ↔ Unambiguous reply.middle reply.lastWord) := by
  obtain ⟨firstline, _, groups, _, lines, matched, first, _⟩ := parseReply_ok parsed
  have oneLine := matchStart_filename_oneLine matched first
  obtain ⟨lineOneLine, nonempty, solid⟩ := reply.line_shape oneLine
  obtain ⟨others, same⟩ := replyLines_first lineOneLine nonempty solid ends
  obtain ⟨rfl, _⟩ := List.cons_eq_cons.mp (same.symm.trans lines)
  obtain ⟨named, free⟩ := free_of_matched oneLine matched first
  obtain ⟨status, read, right⟩ := reply.status
  obtain ⟨results, again⟩ := parseReply_line named oneLine free read ends stat now
  rw [parsed] at again
  rw [Except.ok.inj again]
  exact ⟨⟨named, oneLine, free⟩, right⟩

/-- Colons, spaces and status words in a name do no harm by themselves. -/
theorem reply_parsed_words : ReplyParsed (text "/a:OK FOUND") .ok :=
  (reply_parsed_iff (text "/a:OK FOUND") .ok (by decide)).mpr ⟨by decide, by decide⟩

/-- A colon and a space in the name cut it, and the scan fails its assertion. -/
theorem file_name_breaks_reply :
    ¬ ReplyParsed (text "/a: b") .ok ∧
      ClambScanMgr.scan (text "/a: b") none (.ok ⟨.regular, 5, 1⟩) (text "/a: b: OK\n")
        (text "now") = .error ⟨.assertionError, []⟩ := by
  have cut : (scanResultsRe.matchStart (ReplyLine.ok.line (text "/a: b"))).bind (· 1) =
      some (text "/a") := by
    decide +kernel
  refine ⟨?_, by decide +kernel⟩
  rintro ⟨⟨groups, matched, first⟩, _⟩
  rw [matched, Option.bind_some, first] at cut
  exact absurd cut (by decide)

end ClamavDbscan
