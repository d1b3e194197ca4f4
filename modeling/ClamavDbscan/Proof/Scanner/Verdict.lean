import ClamavDbscan.Proof.Scanner.Pattern
import Mathlib.Data.Nat.Find

/-
This file decides which replies of clamd give a wrong status.
-/

namespace ClamavDbscan

open Backtrack

/-- The signature of a match is one word. -/
structure Signature where
  name : Str
  nonempty : name ≠ []
  solid : name.any isSpace = false

structure ErrorMessage where
  content : Str
  oneLine : newline ∉ content

/-- These are the lines that clamd answers to `SCAN`. -/
inductive ReplyLine where
  | ok
  | found (signature : Signature)
  | error (message : ErrorMessage)

theorem Signature.no_newline (signature : Signature) : newline ∉ signature.name := by
  intro member
  have solid := List.any_eq_false.mp signature.solid _ member
  exact solid (by decide)

namespace ReplyLine

/-- The text between the white space after the path and the last word. -/
def middle : ReplyLine → Str
  | ok => []
  | found signature => signature.name
  | error message => message.content

def lastWord : ReplyLine → Str
  | ok => text "OK"
  | found _ => text "FOUND"
  | error _ => text "ERROR"

def body : ReplyLine → Str
  | ok => text "OK"
  | found signature => signature.name ++ space :: text "FOUND"
  | error message => message.content ++ space :: text "ERROR"

def line (path : Str) (reply : ReplyLine) : Str := path ++ colon :: space :: reply.body

end ReplyLine

/-- A text occurs at an offset. -/
def OccursAt (word string : Str) (offset : Nat) : Prop := word <+: string.drop offset

instance (word string : Str) (offset : Nat) : Decidable (OccursAt word string offset) :=
  inferInstanceAs (Decidable (word <+: string.drop offset))

/-- A later wrong status word is harmless only behind the right one. -/
def Unambiguous (middle lastWord : Str) : Prop :=
  ∀ offset ≥ 1, ∀ word ∈ statusWords, word ≠ lastWord → OccursAt word middle offset →
    ∃ earlier, 1 ≤ earlier ∧ earlier < offset ∧ OccursAt lastWord middle earlier

/-- Only the offsets inside a text decide. -/
theorem unambiguous_iff {middle lastWord : Str} : Unambiguous middle lastWord ↔
    ∀ word ∈ statusWords, ∀ offset < middle.length, 1 ≤ offset ∧ OccursAt word middle offset →
      word = lastWord ∨ ∃ earlier < offset, 1 ≤ earlier ∧ OccursAt lastWord middle earlier := by
  constructor
  · rintro unambiguous word member offset _ ⟨positive, occurs⟩
    by_cases same : word = lastWord
    · exact .inl same
    · obtain ⟨earlier, low, before, start⟩ := unambiguous offset positive word member same occurs
      exact .inr ⟨earlier, before, low, start⟩
  · intro checked offset positive word member other occurs
    have inside : offset < middle.length := by
      by_contra outside
      rw [OccursAt, List.drop_eq_nil_of_le (Nat.le_of_not_lt outside)] at occurs
      exact statusWords_ne_nil member (List.prefix_nil.mp occurs)
    cases checked word member offset inside ⟨positive, occurs⟩ with
    | inl same => exact absurd same other
    | inr found =>
        obtain ⟨earlier, before, low, start⟩ := found
        exact ⟨earlier, low, before, start⟩

instance (middle lastWord : Str) : Decidable (Unambiguous middle lastWord) :=
  decidable_of_iff' _ unambiguous_iff

/-- Whatever a scan returns after this first line has the last word as its status. -/
def VerdictSound (path : Str) (reply : ReplyLine) : Prop :=
  ∀ stat lstat rest now metadata, (rest = [] ∨ ∃ more, rest = newline :: more) →
    ClambScanMgr.scan path stat lstat (reply.line path ++ rest) now = .ok metadata →
      metadata.status = reply.lastWord

/-- A scan that sends the path can return a result. -/
def Sendable (path : Str) : Prop := path ≠ [] ∧ path.any isSurrogate = false

/-- The leftmost status word after the first symbol is the status. -/
theorem tailStatus_leftmost {input word : Str} {offset : Nat} (low : 1 ≤ offset)
    (high : offset ≤ (input.takeWhile dot).length)
    (found : wordAt (input.drop offset) = some word)
    (leftmost : ∀ earlier, 1 ≤ earlier → earlier < offset → wordAt (input.drop earlier) = none) :
    tailStatus input = some word := by
  have backward : ∀ distance, distance < offset →
      statusAt (input.drop (offset - distance)) = none ∨
        statusAt (input.drop (offset - distance)) = some word := by
    intro distance
    induction distance with
    | zero => exact fun _ => .inr (statusAt_of_word found)
    | succ distance ih =>
        intro inside
        have previous := ih (by omega)
        have missed := leftmost (offset - (distance + 1)) (by omega) (by omega)
        cases here : input.drop (offset - (distance + 1)) with
        | nil => exact .inl rfl
        | cons point rest =>
            have next : input.drop (offset - distance) = rest := by
              rw [show offset - distance = offset - (distance + 1) + 1 by omega,
                ← List.drop_drop, here]
              rfl
            cases white : isSpace point with
            | true =>
                rw [statusAt_space white, ← next]
                exact previous
            | false =>
                rw [statusAt_solid white, ← here]
                exact .inl missed
  have lazily : (counts .lazy 1 (input.takeWhile dot).length).findSome? (fun count =>
      statusAt (input.drop count)) = some word := by
    apply findSome_lazy low high (statusAt_of_word found)
    intro earlier atLeast before
    have agreed := backward (offset - earlier) (by omega)
    rwa [show offset - (offset - earlier) = earlier by omega] at agreed
  rw [tailStatus, lazily]
  rfl

/-- A solid word in a text with white space lies on one side of the white space. -/
theorem prefix_before_space {word left right : Str} {point : CodePoint}
    (solid : ∀ entry ∈ word, isSpace entry = false) (white : isSpace point = true)
    (begins : word <+: left ++ point :: right) : word <+: left := by
  rcases List.prefix_or_prefix_of_prefix begins (List.prefix_append left (point :: right)) with
    inside | ⟨tail, same⟩
  · exact inside
  · cases tail with
    | nil => simp [← same]
    | cons head tail =>
        rw [← same, List.prefix_append_right_inj] at begins
        have first : head = point := (List.cons_prefix_cons.mp begins).1
        have here := solid head (by rw [← same]; simp)
        rw [first, white] at here
        contradiction

/-- The last word contains no other status word. -/
theorem lastWord_only {last word : Str} (member : last ∈ statusWords)
    (other : word ∈ statusWords) (offset : Nat) (occurs : word <+: last.drop offset) :
    word = last := by
  have all : ∀ last ∈ statusWords, ∀ word ∈ statusWords, ∀ offset < 5,
      word <+: last.drop offset → word = last := by decide
  by_cases short : offset < 5
  · exact all last member word other offset short occurs
  · have lengths : ∀ last ∈ statusWords, last.length ≤ 5 := by decide
    rw [List.drop_eq_nil_of_le (le_trans (lengths last member) (by omega))] at occurs
    exact absurd (List.prefix_nil.mp occurs) (statusWords_ne_nil other)

/-- The least offset with a status word gives the status of a line with a middle text. -/
theorem tailStatus_middle {middle : Str} (last : Str) (oneLine : newline ∉ middle)
    (member : last ∈ statusWords) :
    ∃ status offset, 1 ≤ offset ∧ offset ≤ middle.length + 1 ∧
      wordAt ((middle ++ space :: last).drop offset) = some status ∧
      (∀ earlier, 1 ≤ earlier → earlier < offset →
        wordAt ((middle ++ space :: last).drop earlier) = none) ∧
      tailStatus (middle ++ space :: last) = some status := by
  have behind : (middle ++ space :: last).drop (middle.length + 1) = last := by
    rw [← List.drop_drop, List.drop_left]
    rfl
  have ends : wordAt ((middle ++ space :: last).drop (middle.length + 1)) = some last := by
    rw [behind]
    exact wordAt_eq_some_iff.mpr ⟨member, List.prefix_rfl⟩
  have some_offset : ∃ offset, 1 ≤ offset ∧
      (wordAt ((middle ++ space :: last).drop offset)).isSome :=
    ⟨middle.length + 1, by omega, by rw [ends]; rfl⟩
  obtain ⟨low, reads⟩ := Nat.find_spec some_offset
  obtain ⟨status, found⟩ := Option.isSome_iff_exists.mp reads
  have high : Nat.find some_offset ≤ middle.length + 1 :=
    Nat.find_min' some_offset ⟨by omega, by rw [ends]; rfl⟩
  have leftmost : ∀ earlier, 1 ≤ earlier → earlier < Nat.find some_offset →
      wordAt ((middle ++ space :: last).drop earlier) = none := by
    intro earlier atLeast before
    simpa [atLeast] using Nat.find_min some_offset before
  refine ⟨status, _, low, high, found, leftmost, tailStatus_leftmost low ?_ found leftmost⟩
  have dotted : ∀ point ∈ middle ++ space :: last, dot point = true := by
    intro point inside
    simp only [dot, bne_iff_ne, ne_eq]
    rintro rfl
    rcases List.mem_append.mp inside with inside | inside
    · exact oneLine inside
    · rcases List.mem_cons.mp inside with same | inside
      · exact absurd same (by decide)
      · have solid := statusWords_solid member _ inside
        exact absurd solid (by decide)
  rw [List.takeWhile_eq_self_iff.mpr dotted]
  simp only [List.length_append, List.length_cons]
  omega

/-- The status is the last word exactly when no wrong word comes first. -/
theorem tailStatus_middle_iff {middle last status : Str} (oneLine : newline ∉ middle)
    (member : last ∈ statusWords) (read : tailStatus (middle ++ space :: last) = some status) :
    status = last ↔ Unambiguous middle last := by
  obtain ⟨word, offset, low, high, found, leftmost, tail⟩ := tailStatus_middle last oneLine member
  obtain rfl : status = word := Option.some.inj (read.symm.trans tail)
  obtain ⟨isWord, begins⟩ := wordAt_eq_some_iff.mp found
  have occurs : ∀ {entry index}, entry ∈ statusWords → index ≤ middle.length →
      entry <+: (middle ++ space :: last).drop index → OccursAt entry middle index := by
    intro entry index known inside start
    rw [List.drop_append_of_le_length inside] at start
    exact prefix_before_space (statusWords_solid known) (by decide) start
  have reads : ∀ {entry index}, entry ∈ statusWords → OccursAt entry middle index →
      index ≤ middle.length ∧ wordAt ((middle ++ space :: last).drop index) = some entry := by
    intro entry index known start
    have inside : index ≤ middle.length := by
      by_contra outside
      rw [OccursAt, List.drop_eq_nil_of_le (by omega)] at start
      exact statusWords_ne_nil known (List.prefix_nil.mp start)
    refine ⟨inside, wordAt_eq_some_iff.mpr ⟨known, ?_⟩⟩
    rw [List.drop_append_of_le_length inside]
    exact start.trans (List.prefix_append _ _)
  constructor
  · rintro rfl index positive entry known different start
    obtain ⟨inside, here⟩ := reads known start
    have before : offset < index := by
      rcases Nat.lt_trichotomy offset index with less | same | more
      · exact less
      · rw [same, here] at found
        exact absurd (Option.some.inj found) different
      · rw [leftmost index positive more] at here
        contradiction
    exact ⟨offset, low, before, occurs isWord (by omega) begins⟩
  · intro unambiguous
    by_contra different
    by_cases inside : offset ≤ middle.length
    · obtain ⟨earlier, positive, before, start⟩ :=
        unambiguous offset low status isWord different (occurs isWord inside begins)
      have here := (reads member start).2
      rw [leftmost earlier positive before] at here
      contradiction
    · have same : offset = middle.length + 1 := by omega
      rw [same, ← List.drop_drop, List.drop_left] at begins
      exact different (lastWord_only member isWord 0 begins)

/-- Every reply line has a status, and it is the last word exactly on unambiguous lines. -/
theorem ReplyLine.status (reply : ReplyLine) :
    ∃ status, tailStatus reply.body = some status ∧
      (status = reply.lastWord ↔ Unambiguous reply.middle reply.lastWord) := by
  cases reply with
  | ok =>
      refine ⟨text "OK", by decide, ?_⟩
      simp only [lastWord, true_iff]
      intro offset _ word known _ occurs
      rw [OccursAt, middle, List.drop_nil] at occurs
      exact absurd (List.prefix_nil.mp occurs) (statusWords_ne_nil known)
  | found signature =>
      have oneLine := signature.no_newline
      obtain ⟨status, _, _, _, _, _, tail⟩ :=
        tailStatus_middle (text "FOUND") oneLine (by decide)
      exact ⟨status, tail, tailStatus_middle_iff oneLine
        (show text "FOUND" ∈ statusWords by decide) tail⟩
  | error message =>
      obtain ⟨status, _, _, _, _, _, tail⟩ :=
        tailStatus_middle (text "ERROR") message.oneLine (by decide)
      exact ⟨status, tail, tailStatus_middle_iff message.oneLine
        (show text "ERROR" ∈ statusWords by decide) tail⟩

/-- Reading a reply keeps its first line when that line ends in a solid symbol. -/
theorem replyLines_first {line rest : Str} (oneLine : newline ∉ line) (nonempty : line ≠ [])
    (solid : isSpace (line.getLast nonempty) = false)
    (ends : rest = [] ∨ ∃ more, rest = newline :: more) :
    ∃ others, replyLines (line ++ rest) = line :: others := by
  have stripped : rstrip line = line := by
    rw [rstrip, List.rdropWhile_eq_self_iff]
    intro _
    simp [solid]
  rcases ends with rfl | ⟨more, rfl⟩
  · refine ⟨[], ?_⟩
    rw [List.append_nil, replyLines, List.splitOn_eq_singleton oneLine]
    simp [stripped, nonempty]
  · refine ⟨((more.splitOn newline).map rstrip).filter (· ≠ []), ?_⟩
    rw [replyLines, List.splitOn_append_cons_self_of_not_mem oneLine]
    simp [stripped, nonempty]

/-- A reply line has no newline and ends in its last word. -/
theorem ReplyLine.line_shape {path : Str} (oneLine : newline ∉ path) (reply : ReplyLine) :
    newline ∉ reply.line path ∧ ∃ nonempty : reply.line path ≠ [],
      isSpace ((reply.line path).getLast nonempty) = false := by
  have bodyLine : newline ∉ reply.body ∧ ∃ start last, reply.body = start ++ [last] ∧
      isSpace last = false := by
    cases reply with
    | ok => exact ⟨by decide, text "O", codePoint 'K', by decide, by decide⟩
    | found signature =>
        refine ⟨?_, signature.name ++ space :: text "FOUN", codePoint 'D', ?_, by decide⟩
        · intro member
          rcases List.mem_append.mp member with inside | inside
          · exact signature.no_newline inside
          · exact absurd inside (by decide)
        · simp [body, text]
    | error message =>
        refine ⟨?_, message.content ++ space :: text "ERRO", codePoint 'R', ?_, by decide⟩
        · intro member
          rcases List.mem_append.mp member with inside | inside
          · exact message.oneLine inside
          · exact absurd inside (by decide)
        · simp [body, text]
  obtain ⟨bodyOneLine, start, last, same, solid⟩ := bodyLine
  refine ⟨?_, by simp [line], ?_⟩
  · intro member
    rcases List.mem_append.mp member with inside | inside
    · exact oneLine inside
    · rcases List.mem_cons.mp inside with same | inside
      · exact absurd same (by decide)
      · rcases List.mem_cons.mp inside with same | inside
        · exact absurd same (by decide)
        · exact bodyOneLine inside
  · have ends : reply.line path = (path ++ colon :: space :: start) ++ [last] := by
      simp [line, same]
    simpa [ends] using solid

/-- A parsed reply names the path, and every other field is copied. -/
theorem parseReply_ok {path now : Str} {stat : StatResult} {lines : List Str}
    {metadata : ClamAVDBFileMetadata} (parsed : parseReply path stat lines now = .ok metadata) :
    ∃ firstline others groups status, lines = firstline :: others ∧
      scanResultsRe.matchStart firstline = some groups ∧ groups 1 = some path ∧
        groups 3 = some status ∧ metadata = ⟨path, toInt stat.stMtime, stat.stSize, false, status,
          now, joinLines lines⟩ := by
  unfold parseReply at parsed
  split at parsed
  · contradiction
  · rename_i firstline others
    split at parsed
    · contradiction
    · rename_i groups matched
      split at parsed
      · rename_i filename status first third
        split at parsed
        · rename_i same
          exact ⟨firstline, others, groups, status, rfl, matched, by rw [first, same], third,
            (Except.ok.inj parsed).symm⟩
        · contradiction
      · contradiction

/-- A scan that returns has encoded its path and parsed the reply. -/
theorem scan_ok {path reply now : Str} {stat : Option StatResult}
    {lstat : Except PyException StatResult} {metadata : ClamAVDBFileMetadata}
    (returned : ClambScanMgr.scan path stat lstat reply now = .ok metadata) :
    path.any isSurrogate = false ∧ ∃ taken,
      parseReply path taken (replyLines reply) now = .ok metadata := by
  rw [ClambScanMgr.scan] at returned
  cases statted : ClambScanMgr.statForScan path stat lstat with
  | error raised => simp [statted, Except.bind] at returned
  | ok taken =>
      cases encodes : path.any isSurrogate with
      | true => simp [statted, ClambScanMgr.sendScan, encodes, Except.bind] at returned
      | false =>
          refine ⟨rfl, taken, ?_⟩
          simpa [statted, ClambScanMgr.sendScan, encodes, Except.bind] using returned

/-- The scanner parses a reply line with the status that the pattern reads. -/
theorem parseReply_line {path status : Str} {reply : ReplyLine} (named : path ≠ [])
    (oneLine : newline ∉ path) (free : ColonSpaceFree path.tail)
    (read : tailStatus reply.body = some status)
    {rest : Str} (ends : rest = [] ∨ ∃ more, rest = newline :: more)
    (stat : StatResult) (now : Str) :
    ∃ results, parseReply path stat (replyLines (reply.line path ++ rest)) now =
      .ok ⟨path, toInt stat.stMtime, stat.stSize, false, status, now, results⟩ := by
  obtain ⟨lineOneLine, nonempty, solid⟩ := reply.line_shape oneLine
  obtain ⟨others, lines⟩ := replyLines_first lineOneLine nonempty solid ends
  obtain ⟨groups, matched, first, third⟩ :=
    matchStart_line named oneLine free (show isSpace space = true by decide) read
  refine ⟨joinLines (reply.line path :: others), ?_⟩
  rw [lines, parseReply, ReplyLine.line, matched]
  simp only [first, third, if_true]

/-- A scan reports the last word exactly when the line is unambiguous, or it never returns. -/
theorem scan_verdict_iff (path : Str) (reply : ReplyLine) (oneLine : newline ∉ path)
    (free : ColonSpaceFree path) :
    VerdictSound path reply ↔
      (¬ Sendable path ∨ Unambiguous reply.middle reply.lastWord) := by
  obtain ⟨status, read, right⟩ := reply.status
  constructor
  · intro sound
    by_cases sendable : Sendable path
    · right
      obtain ⟨results, parsed⟩ := parseReply_line sendable.1 oneLine free.tail read
        (.inl rfl) ⟨.regular, 0, 0⟩ []
      have returned := sound (some ⟨.regular, 0, 0⟩) (.ok ⟨.regular, 0, 0⟩) [] []
        ⟨path, toInt 0, 0, false, status, [], results⟩ (.inl rfl) (by
          rw [ClambScanMgr.scan, ClambScanMgr.sendScan, sendable.2]
          exact parsed)
      exact right.mp returned
    · exact .inl sendable
  · intro condition stat lstat rest now metadata ends returned
    obtain ⟨encodes, taken, parsed⟩ := scan_ok returned
    obtain ⟨firstline, others, groups, _, _, matched, first, _⟩ := parseReply_ok parsed
    have named : path ≠ [] := by
      rintro rfl
      exact matchStart_filename_ne_nil matched first
    have unambiguous := condition.resolve_left (fun unsendable => unsendable ⟨named, encodes⟩)
    obtain ⟨results, same⟩ := parseReply_line named oneLine free.tail read ends taken now
    rw [same] at parsed
    rw [← Except.ok.inj parsed]
    exact right.mpr unambiguous

/-- An ordinary detection keeps its status. -/
theorem scan_verdict_eicar :
    VerdictSound (text "/a") (.found ⟨text "Eicar", by decide, by decide⟩) := by
  apply (scan_verdict_iff (text "/a") (.found ⟨text "Eicar", by decide, by decide⟩) (by decide) (by
    intro before point after same
    have member : colon ∈ text "/a" := by rw [same]; simp
    exact absurd member (by decide))).mpr
  right
  intro offset _ word known _ occurs
  have none_inside : ∀ offset < 5, ∀ word ∈ statusWords,
      ¬ word <+: (text "Eicar").drop offset := by decide
  by_cases inside : offset < 5
  · exact absurd occurs (none_inside offset inside word known)
  · change word <+: (text "Eicar").drop offset at occurs
    rw [List.drop_eq_nil_of_le (by simpa [text] using Nat.le_of_not_lt inside)] at occurs
    exact absurd (List.prefix_nil.mp occurs) (statusWords_ne_nil known)

/-- A detection whose name contains `OK` after its first letter is reported as clean. -/
theorem scan_verdict_wrong :
    ¬ VerdictSound (text "/a") (.found ⟨text "BOOK-1", by decide, by decide⟩) ∧
      (ClambScanMgr.scan (text "/a") none (.ok ⟨.regular, 68, 1⟩)
        (text "/a: BOOK-1 FOUND\n") (text "now")).map (·.status) = .ok (text "OK") := by
  have read : (ClambScanMgr.scan (text "/a") none (.ok ⟨.regular, 68, 1⟩)
      (text "/a: BOOK-1 FOUND\n") (text "now")).map (·.status) = .ok (text "OK") := by
    decide +kernel
  refine ⟨?_, read⟩
  intro sound
  cases returned : ClambScanMgr.scan (text "/a") none (.ok ⟨.regular, 68, 1⟩)
      (text "/a: BOOK-1 FOUND\n") (text "now") with
  | error raised =>
      rw [returned] at read
      contradiction
  | ok metadata =>
      rw [returned] at read
      have found := sound none _ (text "\n") _ metadata (.inr ⟨[], by decide⟩) returned
      rw [Except.map, found] at read
      exact absurd read (by decide)

end ClamavDbscan
