import ClamavDbscan.Construction.FSWatcher.MarshalJSON
import ClamavDbscan.Construction.Watch.Message
import ClamavDbscan.Construction.Watcher.Print

/-
This file decides which file names survive the trip from a watcher to the scanner.
-/

namespace ClamavDbscan

open Json (Parses ParsesMembers ParsesElements Escaped)

/-- The watcher task handles these files with the strings that the scanner has for them. -/
def Delivered (message : Bytes) (files : List (Bytes × String)) : Prop :=
  readMessage message =
    (files.map fun (path, operation) => ⟨fsdecode path, .ofText (text operation)⟩, none)

/-- The bytes are the encoding of a text for this value. -/
def Writes (bytes : Bytes) (value : Json.Value) : Prop :=
  ∃ written, bytes = Utf8.encode written ∧ Parses written value

/-- The decoded object of a file gives its repaired path. -/
def ReadsFile (value : Bytes × String → Json.Value) : Prop :=
  ∀ file, readFileEvent (value file) =
    some (some ⟨(Utf8.repair file.1).map codePoint, .ofText (text file.2)⟩)

/-- Both watchers send an object of this form. -/
def documentValue (value : Bytes × String → Json.Value) (files : List (Bytes × String)) : Json.Value :=
  .object [(text "events", .array (files.map value))]

theorem readFileEvents_files {value : Bytes × String → Json.Value} (reads : ReadsFile value)
    (files : List (Bytes × String)) :
    readFileEvents (files.map value) = (files.map fun (path, operation) =>
      ⟨(Utf8.repair path).map codePoint, .ofText (text operation)⟩, none) := by
  induction files with
  | nil => rfl
  | cons file files ih =>
      rw [List.map_cons, readFileEvents, reads, ih]
      rfl

/-- A text for the document is read with repaired paths. -/
theorem readMessage_parses {value : Bytes × String → Json.Value} (reads : ReadsFile value)
    {written : List Char} {files : List (Bytes × String)}
    (parses : Parses written (documentValue value files)) :
    readMessage (Utf8.encode written) =
      (files.map fun (path, operation) =>
        ⟨(Utf8.repair path).map codePoint, .ofText (text operation)⟩, none) := by
  rw [readMessage, Utf8.decode_encode]
  dsimp only
  rw [Json.loads_parses parses, documentValue]
  simp only [Json.Value.get, List.reverse_singleton, List.find?_cons, decide_true, Option.map_some]
  exact readFileEvents_files reads files

/-- The repaired path is the scanner's string exactly if the path is valid. -/
theorem repair_eq_fsdecode_iff (path : Bytes) :
    (Utf8.repair path).map codePoint = fsdecode path ↔ Utf8.Valid path := by
  have pointwise : (Utf8.repair path).map codePoint = fsdecode path ↔
      ∀ piece ∈ Utf8.split path, piece.isChar = true := by
    rw [Utf8.repair, List.map_map, fsdecode, List.map_inj_left]
    apply forall₂_congr
    intro piece _
    cases piece with
    | char char => exact iff_of_true rfl rfl
    | stray byte =>
        apply iff_of_false _ Bool.false_ne_true
        intro same
        have value := congrArg Fin.val same
        have small := byte.toNat_lt
        change 0xfffd = 0xdc00 + byte.toNat at value
        omega
  exact pointwise

/-- A character is no surrogate. -/
theorem isSurrogate_codePoint (char : Char) : isSurrogate (codePoint char) = false := by
  have valid : char.toNat < 0xd800 ∨ 0xdfff < char.toNat ∧ char.toNat < 0x110000 := char.valid
  change (decide (0xd800 ≤ char.toNat) && decide (char.toNat ≤ 0xdfff)) = false
  rw [Bool.and_eq_false_iff, decide_eq_false_iff_not, decide_eq_false_iff_not]
  omega

/-- A message that reads with repaired paths is right exactly for valid paths. -/
theorem delivered_iff {message : Bytes} {files : List (Bytes × String)}
    (read : readMessage message = (files.map fun (path, operation) =>
      ⟨(Utf8.repair path).map codePoint, .ofText (text operation)⟩, none)) :
    Delivered message files ↔ ∀ file ∈ files, Utf8.Valid file.1 := by
  rw [Delivered, read, Prod.mk.injEq, List.map_inj_left]
  simp only [and_true]
  apply forall₂_congr
  intro file _
  rw [← repair_eq_fsdecode_iff]
  simp only [FileEvent.mk.injEq, and_true]

theorem white_of_all (space : List Char) (all : space.all Json.isSpace = true) :
    ∀ char ∈ space, Json.isSpace char = true := List.all_eq_true.mp all

/-- The keys of a message need no escape. -/
theorem escaped_key : ∀ key ∈ ["path".toList, "operation".toList, "events".toList],
    Escaped key key := by
  intro key member
  apply Json.escaped_plain
  simp only [List.mem_cons, List.not_mem_nil, or_false] at member
  rcases member with rfl | rfl | rfl <;> simp

namespace Watcher

/-- This is the decoded object of an event. -/
def fileValue (file : Bytes × String) : Json.Value :=
  .object [(text "path", .string ((Utf8.repair file.1).map codePoint)),
    (text "operation", .string (text file.2))]

theorem readsFile_fileValue : ReadsFile fileValue := by
  intro file
  have keys : text "operation" ≠ text "path" := by decide
  simp [readFileEvent, fileValue, Json.Value.get, keys, Operation.ofValue]

/-- Every ASCII character that is not copied has an escape. -/
theorem reads_escapeLetters : ∀ code < 128, ¬ (31 < code ∧ code ≠ 0x22 ∧ code ≠ 0x5c) →
    Json.readsEscape (escapeLetters (UInt8.ofNat code)) (Char.ofNat code) = true := by
  decide +kernel

/-- An ASCII character is printed as text that the decoder reads as the character. -/
theorem printByte_ascii {char : Char} (small : char.val.toNat < 128) :
    ∃ first rest, printByte (UInt8.ofNat char.val.toNat) = Utf8.encode (first :: rest) ∧
      first.val.toNat < 128 ∧ Escaped (first :: rest) [char] := by
  have value : (UInt8.ofNat char.val.toNat).toNat = char.val.toNat := by
    rw [UInt8.toNat_ofNat']
    omega
  have same (code : Nat) (fits : code < 256) : UInt8.ofNat char.val.toNat = UInt8.ofNat code ↔
      char.val.toNat = code := by
    rw [← UInt8.toNat_inj, value, UInt8.toNat_ofNat']
    omega
  have condition : (31 < (UInt8.ofNat char.val.toNat).toNat ∧ UInt8.ofNat char.val.toNat ≠ 0x22 ∧
      UInt8.ofNat char.val.toNat ≠ 0x5c) ↔
      31 < char.val.toNat ∧ char.val.toNat ≠ 0x22 ∧ char.val.toNat ≠ 0x5c := by
    rw [value]
    exact and_congr_right fun _ => and_congr (same 0x22 (by decide)).not (same 0x5c (by decide)).not
  rw [printByte]
  by_cases copied : 31 < char.val.toNat ∧ char.val.toNat ≠ 0x22 ∧ char.val.toNat ≠ 0x5c
  · rw [if_pos (condition.mpr copied)]
    refine ⟨char, [], ?_, small, ?_⟩
    · rw [Utf8.encode_cons, Utf8.encode_ascii small]
      rfl
    · obtain ⟨printable, notQuote, notEscape⟩ := copied
      apply Escaped.plain _ _ (Nat.succ_le_of_lt printable) .nil
      · rintro rfl
        exact notQuote rfl
      · rintro rfl
        exact notEscape rfl
  · rw [if_neg fun both => copied (condition.mp both)]
    have reads := reads_escapeLetters char.val.toNat small copied
    have whole : Char.ofNat char.val.toNat = char := Char.ofNat_toNat char
    rw [whole] at reads
    exact ⟨'\\', _, rfl, by decide, Json.escaped_of_reads reads⟩

theorem printByte_high (byte : UInt8) (large : 128 ≤ byte.toNat) : printByte byte = [byte] := by
  rw [printByte, if_pos]
  refine ⟨by omega, ?_, ?_⟩
  · rintro rfl
    exact absurd large (by decide)
  · rintro rfl
    exact absurd large (by decide)

theorem escapesAscii_printByte : Utf8.EscapesAscii printByte where
  high := printByte_high
  low byte small := by
    have value : (Char.ofUInt8 byte).val.toNat = byte.toNat := byte.toNat_toUInt32
    obtain ⟨first, rest, printed, ascii, _⟩ := printByte_ascii (value ▸ small)
    rw [value, UInt8.ofNat_toNat] at printed
    exact ⟨first, rest, printed, ascii⟩

/-- The printed bytes of a text are the encoding of an escape for it. -/
theorem flatMap_printByte (chars : List Char) :
    ∃ escape, (Utf8.encode chars).flatMap printByte = Utf8.encode escape ∧ Escaped escape chars := by
  induction chars with
  | nil => exact ⟨[], rfl, .nil⟩
  | cons char chars ih =>
      obtain ⟨escape, printed, escaped⟩ := ih
      rw [Utf8.encode_cons, List.flatMap_append, printed]
      by_cases small : char.val.toNat < 128
      · obtain ⟨first, rest, written, _, one⟩ := printByte_ascii small
        refine ⟨(first :: rest) ++ escape, ?_, one.append escaped⟩
        rw [Utf8.encode_ascii small, List.flatMap_singleton, written, Utf8.encode_append]
      · have large : 128 ≤ char.toNat := Nat.le_of_not_lt small
        refine ⟨char :: escape, ?_, ?_⟩
        · rw [escapesAscii_printByte.flatMap_high fun byte => Utf8.encode_high large,
            Utf8.encode_cons]
        · apply Escaped.plain _ _ (by omega) escaped
          · rintro rfl
            exact absurd large (by decide)
          · rintro rfl
            exact absurd large (by decide)

theorem printStringPtr_eq {input : Bytes} (terminated : 0 ∉ input) :
    printStringPtr input = ascii "\"" ++ (input.flatMap printByte ++ ascii "\"") := by
  have whole : input.takeWhile (· ≠ 0) = input := by
    rw [List.takeWhile_eq_self_iff]
    intro byte member
    simp only [ne_eq, decide_eq_true_eq]
    rintro rfl
    exact terminated member
  rw [printStringPtr, whole]

/-- A valid string is printed between quotes. -/
theorem printStringPtr_encode {chars : List Char} (terminated : 0 ∉ Utf8.encode chars) :
    ∃ escape, printStringPtr (Utf8.encode chars) = Utf8.encode ('"' :: escape ++ ['"']) ∧
      Escaped escape chars := by
  obtain ⟨escape, printed, escaped⟩ := flatMap_printByte chars
  refine ⟨escape, ?_, escaped⟩
  rw [printStringPtr_eq terminated, printed, Utf8.encode_append]
  rfl

/-- The object of an event is a text for its file. -/
theorem printValue_json {event : JsonEvent} (valid : Utf8.Valid event.path)
    (terminated : 0 ∉ event.path) (named : 0 ∉ ascii event.operation) :
    Writes (printValue 2 event.json) (fileValue (event.path, event.operation)) := by
  have encoded := (Utf8.encode_repair_iff event.path).mpr valid
  rw [← encoded] at terminated
  obtain ⟨escape, printed, escaped⟩ := printStringPtr_encode terminated
  obtain ⟨letters, printedName, escapedName⟩ := printStringPtr_encode named
  rw [encoded] at printed
  change printStringPtr (ascii event.operation) = _ at printedName
  have keyPath : printStringPtr (ascii "path") = Utf8.encode ('"' :: "path".toList ++ ['"']) := by
    decide
  have keyOperation : printStringPtr (ascii "operation") =
      Utf8.encode ('"' :: "operation".toList ++ ['"']) := by
    decide
  have last := Json.parsesMembers_last (escaped_key "operation".toList (by decide))
    (Json.parses_string escapedName) (white_of_all ['\t'] rfl) (white_of_all "\n\t\t".toList rfl)
  have both := Json.parsesMembers_more (escaped_key "path".toList (by decide))
    (Json.parses_string escaped) (white_of_all ['\t'] rfl) (white_of_all [] rfl)
    (white_of_all "\n\t\t\t".toList rfl) last
  refine ⟨_, ?_, Json.parses_object (white_of_all "\n\t\t\t".toList rfl) both⟩
  simp only [JsonEvent.json, printValue, printObject, keyPath, keyOperation, printed, printedName,
    List.isEmpty_cons, List.isEmpty_nil, Bool.false_eq_true, if_false, if_true, List.nil_append,
    List.append_nil]
  simp only [ascii, tabs, ← Utf8.encode_append, List.append_assoc]
  rfl

/-- Printed elements and the bracket behind them are text for their values. -/
theorem printArray_writes {depth : Nat} {elements : List CJson} {values : List Json.Value}
    (writes : List.Forall₂ (fun element value => Writes (printValue depth element) value)
      elements values) (nonempty : elements ≠ []) :
    ∃ written, printArray depth elements ++ ascii "]" = Utf8.encode written ∧
      ParsesElements written values := by
  induction writes with
  | nil => contradiction
  | @cons element value elements values here others ih =>
      obtain ⟨text, printed, parses⟩ := here
      cases others with
      | nil =>
          refine ⟨_, ?_, Json.parsesElements_last parses (white_of_all [] rfl)⟩
          simp only [printArray, printed, List.isEmpty_nil, if_true, List.append_nil,
            List.nil_append, Utf8.encode_append]
          rfl
      | cons next later =>
          obtain ⟨rest, printedRest, parsesRest⟩ := ih (List.cons_ne_nil _ _)
          refine ⟨_, ?_, Json.parsesElements_more parses (white_of_all [] rfl)
            (white_of_all [' '] rfl) parsesRest⟩
          rw [printArray, printed, List.isEmpty_cons, if_neg Bool.false_ne_true, List.append_assoc,
            List.append_assoc, printedRest]
          simp only [ascii, ← Utf8.encode_append]
          rfl

/-- The message is a text for the document of its files. -/
theorem message_writes {events : List JsonEvent} (valid : ∀ event ∈ events, Utf8.Valid event.path)
    (terminated : ∀ event ∈ events, 0 ∉ event.path)
    (named : ∀ event ∈ events, 0 ∉ ascii event.operation) :
    Writes (message events)
      (documentValue fileValue (events.map fun event => (event.path, event.operation))) := by
  have array : Writes (printValue 1 (.array (events.map JsonEvent.json)))
      (.array (events.map fun event => fileValue (event.path, event.operation))) := by
    cases events with
    | nil => exact ⟨['[', ']'], rfl, Json.parses_empty⟩
    | cons event others =>
        have writes : List.Forall₂ (fun element value => Writes (printValue 2 element) value)
            ((event :: others).map JsonEvent.json)
            ((event :: others).map fun event => fileValue (event.path, event.operation)) := by
          rw [List.forall₂_map_left_iff, List.forall₂_map_right_iff, List.forall₂_same]
          intro entry member
          exact printValue_json (valid entry member) (terminated entry member) (named entry member)
        obtain ⟨written, printed, parses⟩ := printArray_writes writes (List.cons_ne_nil _ _)
        refine ⟨'[' :: written, ?_, Json.parses_array parses⟩
        rw [printValue, printed]
        rfl
  obtain ⟨written, printed, parses⟩ := array
  have key : printStringPtr (ascii "events") = Utf8.encode ('"' :: "events".toList ++ ['"']) := by
    decide
  have member := Json.parsesMembers_last (escaped_key "events".toList (by decide)) parses
    (white_of_all ['\t'] rfl) (white_of_all ['\n'] rfl)
  have whole := Json.parses_object (white_of_all "\n\t".toList rfl) member
  rw [documentValue, List.map_map]
  refine ⟨_, ?_, whole⟩
  simp only [message, document, printValue, printObject, key]
  rw [← printValue, printed]
  simp only [List.isEmpty_nil, if_true, List.nil_append, List.append_nil]
  simp only [ascii, tabs, ← Utf8.encode_append, List.append_assoc]
  rfl

/-- The text of an element stands in the text of the array. -/
theorem printArray_contains (depth : Nat) {elements : List CJson} {element : CJson}
    (member : element ∈ elements) : printValue depth element <:+: printArray depth elements := by
  induction elements with
  | nil => contradiction
  | cons first others ih =>
      rw [printArray]
      rcases List.mem_cons.mp member with rfl | later
      · exact (List.prefix_append _ _).isInfix
      · exact ((ih later).trans (List.suffix_append _ _).isInfix).trans
          (List.suffix_append _ _).isInfix

/-- The text of a value stands in the text of its object. -/
theorem printObject_contains (depth : Nat) (name : Bytes) (item : CJson)
    (others : List (Bytes × CJson)) :
    printValue (depth + 1) item <:+: printValue depth (.object ((name, item) :: others)) := by
  rw [printValue, printObject]
  have inside : printValue (depth + 1) item <:+: tabs (depth + 1) ++ (printStringPtr name ++
      (ascii ":\t" ++ (printValue (depth + 1) item ++ ((if others.isEmpty then [] else ascii ",") ++
        (ascii "\n" ++ printObject (depth + 1) others))))) := by
    refine ⟨tabs (depth + 1) ++ (printStringPtr name ++ ascii ":\t"),
      (if others.isEmpty then [] else ascii ",") ++ (ascii "\n" ++ printObject (depth + 1) others), ?_⟩
    simp only [List.append_assoc]
  exact inside.trans (List.infix_append' _ _ _)

/-- The printed path of an event stands in the message. -/
theorem message_path {events : List JsonEvent} {event : JsonEvent} (member : event ∈ events) :
    printStringPtr event.path <:+: message events := by
  have path : printStringPtr event.path <:+: printValue 2 event.json := by
    have item := printObject_contains 2 (ascii "path") (.string event.path)
      [(ascii "operation", .string (ascii event.operation))]
    rwa [printValue] at item
  have listed : event.json ∈ events.map JsonEvent.json := List.mem_map_of_mem member
  have array : printArray 2 (events.map JsonEvent.json) <:+:
      printValue 1 (.array (events.map JsonEvent.json)) := by
    rw [printValue]
    exact List.infix_append' _ _ _
  exact ((path.trans (printArray_contains 2 listed)).trans array).trans
    (printObject_contains 0 (ascii "events") _ [])

/-- A strict decoder accepts a printed string only if the string is valid. -/
theorem valid_of_printed {path printed : Bytes} (terminated : 0 ∉ path)
    (inside : printStringPtr path <:+: printed) (valid : Utf8.Valid printed) : Utf8.Valid path := by
  obtain ⟨front, back, rfl⟩ := inside
  have small : (0x22 : UInt8).toNat < 128 := by decide
  rw [printStringPtr_eq terminated, List.append_assoc, List.append_assoc, List.append_assoc] at valid
  have content : Utf8.Valid (path.flatMap printByte ++ 0x22 :: back) := by
    have behind := ((Utf8.valid_separator small front _).mp valid).2
    exact (Utf8.valid_encode_append ['"'] _).mp behind
  exact escapesAscii_printByte.valid ((Utf8.valid_separator small _ back).mp content).1

/-- The message of the C watcher is right exactly if all its paths are valid. -/
theorem message_delivered_iff {events : List JsonEvent} (terminated : ∀ event ∈ events, 0 ∉ event.path)
    (named : ∀ event ∈ events, 0 ∉ ascii event.operation) :
    Delivered (message events) (events.map fun event => (event.path, event.operation)) ↔
      ∀ event ∈ events, Utf8.Valid event.path := by
  constructor
  · intro delivered event member
    have decodes : Utf8.Valid (message events) := by
      by_contra stray
      rw [Delivered, readMessage, Utf8.decode, if_neg stray] at delivered
      exact absurd (congrArg Prod.snd delivered) (by simp)
    exact valid_of_printed (terminated event member) (message_path member) decodes
  · intro valid
    obtain ⟨written, same, parses⟩ := message_writes valid terminated named
    rw [same, delivered_iff (readMessage_parses readsFile_fileValue parses)]
    simpa using valid

end Watcher

namespace FSWatcher

/-- The keys of an object are sorted. -/
def fileValue (file : Bytes × String) : Json.Value :=
  .object [(text "operation", .string (text file.2)),
    (text "path", .string ((Utf8.repair file.1).map codePoint))]

theorem readsFile_fileValue : ReadsFile fileValue := by
  intro file
  have keys : text "path" ≠ text "operation" := by decide
  simp [readFileEvent, fileValue, Json.Value.get, keys, Operation.ofValue]

theorem reads_hexLetters : ∀ code < 128, Json.readsEscape
    ['u', '0', '0', Json.hexLetter (code / 16), Json.hexLetter (code % 16)] (Char.ofNat code) = true := by
  decide +kernel

/-- One special character has an escape, and the others are written in another way. -/
theorem escaped_ite {special char : Char} {escape other : List Char} (reads : Escaped escape [special])
    (otherwise : char ≠ special → Escaped other [char]) :
    Escaped (if char = special then escape else other) [char] := by
  split
  · rename_i same
    subst same
    exact reads
  · rename_i apart
    exact otherwise apart

/-- Every character is written as itself or as an escape for it. -/
theorem escaped_escapeChar (char : Char) : Escaped (escapeChar char) [char] := by
  unfold escapeChar
  split
  · rename_i special
    rcases special with rfl | rfl
    · exact Json.escaped_of_reads (by decide)
    · exact Json.escaped_of_reads (by decide)
  · rename_i notSpecial
    refine escaped_ite (Json.escaped_of_reads (by decide)) fun _ => ?_
    refine escaped_ite (Json.escaped_of_reads (by decide)) fun _ => ?_
    refine escaped_ite (Json.escaped_of_reads (by decide)) fun _ => ?_
    refine escaped_ite (Json.escaped_of_reads (by decide)) fun _ => ?_
    refine escaped_ite (Json.escaped_of_reads (by decide)) fun _ => ?_
    split
    · rename_i unsafe_char
      have small : char.toNat < 128 := by
        rcases unsafe_char with control | rfl | rfl | rfl
        · omega
        · decide
        · decide
        · decide
      have reads := reads_hexLetters char.toNat small
      rw [Char.ofNat_toNat] at reads
      exact Json.escaped_of_reads reads
    · rename_i safe_char
      refine escaped_ite (Json.escaped_of_reads (by decide)) fun _ => ?_
      refine escaped_ite (Json.escaped_of_reads (by decide)) fun _ => ?_
      rw [not_or] at notSpecial safe_char
      exact .plain notSpecial.2 notSpecial.1 (Nat.le_of_not_lt safe_char.1) .nil

/-- The encoder writes the repaired string. -/
theorem appendString_eq (bytes : Bytes) :
    ∃ escape, appendString bytes = '"' :: escape ++ ['"'] ∧ Escaped escape (Utf8.repair bytes) := by
  refine ⟨_, rfl, ?_⟩
  rw [Utf8.repair]
  induction Utf8.split bytes with
  | nil => exact .nil
  | cons piece pieces ih =>
      have here : Escaped (escapePiece piece) [piece.repaired] := by
        cases piece with
        | char char => exact escaped_escapeChar char
        | stray byte =>
            change Escaped _ ['\ufffd']
            exact Json.escaped_of_reads (by decide)
      exact here.append ih

/-- The object of an event is a text for its file. -/
theorem marshalJSON_parses {event : Event} {written : List Char}
    (marshalled : marshalJSON event = some written) :
    Parses written (fileValue (event.path, event.actionSimplified.getD "")) := by
  obtain ⟨operation, simplified, rfl⟩ := Option.map_eq_some_iff.mp marshalled
  obtain ⟨escape, writtenPath, escaped⟩ := appendString_eq event.path
  obtain ⟨letters, writtenName, escapedName⟩ := appendString_eq (Utf8.encode operation.toList)
  rw [Utf8.repair_encode] at escapedName
  have last := Json.parsesMembers_last (escaped_key "path".toList (by decide))
    (Json.parses_string escaped) (white_of_all [] rfl) (white_of_all [] rfl)
  have both := Json.parsesMembers_more (escaped_key "operation".toList (by decide))
    (Json.parses_string escapedName) (white_of_all [] rfl) (white_of_all [] rfl)
    (white_of_all [] rfl) last
  have whole := Json.parses_object (white_of_all [] rfl) both
  rw [simplified, writtenPath, writtenName]
  exact whole

/-- Joined elements and the bracket behind them are text for their values. -/
theorem joinElements_parses {elements : List (List Char)} {values : List Json.Value}
    (parses : List.Forall₂ Parses elements values) (nonempty : elements ≠ []) :
    ParsesElements (joinElements elements ++ [']']) values := by
  induction parses with
  | nil => contradiction
  | @cons element value elements values here others ih =>
      cases others with
      | nil =>
          have last := Json.parsesElements_last here (white_of_all [] rfl)
          simpa [joinElements] using last
      | cons next later =>
          have more := Json.parsesElements_more here (white_of_all [] rfl) (white_of_all [] rfl)
            (ih (List.cons_ne_nil _ _))
          rw [joinElements, List.isEmpty_cons, if_neg Bool.false_ne_true, List.append_assoc,
            List.append_assoc]
          exact more

theorem elements_parse {events : List Event} {elements : List (List Char)}
    (written : events.mapM marshalJSON = some elements) :
    List.Forall₂ Parses elements (events.map fun event =>
      fileValue (event.path, event.actionSimplified.getD "")) := by
  induction events generalizing elements with
  | nil =>
      obtain rfl := Option.some.inj written
      exact .nil
  | cons event others ih =>
      rw [List.mapM_cons] at written
      obtain ⟨first, marshalled, written⟩ := Option.bind_eq_some_iff.mp written
      obtain ⟨rest, later, same⟩ := Option.bind_eq_some_iff.mp written
      obtain rfl := Option.some.inj same
      exact .cons (marshalJSON_parses marshalled) (ih later)

theorem marshalEvents_writes {events : List Event} {message : Bytes}
    (marshalled : marshalEvents events = some message) :
    Writes message (documentValue fileValue
      (events.map fun event => (event.path, event.actionSimplified.getD ""))) := by
  obtain ⟨elements, written, rfl⟩ := Option.map_eq_some_iff.mp marshalled
  have parses := elements_parse written
  have array : Parses ('[' :: (joinElements elements ++ [']'])) (.array (events.map fun event =>
      fileValue (event.path, event.actionSimplified.getD ""))) := by
    cases elements with
    | nil =>
        obtain rfl : events = [] := by
          cases events with
          | nil => rfl
          | cons event others => cases parses
        exact Json.parses_empty
    | cons element others =>
        exact Json.parses_array (joinElements_parses parses (List.cons_ne_nil _ _))
  have member := Json.parsesMembers_last (escaped_key "events".toList (by decide)) array
    (white_of_all [] rfl) (white_of_all [] rfl)
  have whole := Json.parses_object (white_of_all [] rfl) member
  rw [documentValue, List.map_map]
  refine ⟨_, ?_, whole⟩
  congr 1
  simp

/-- The message of the Go watcher is right exactly if all its paths are valid. -/
theorem message_delivered_iff {events : List Event} {message : Bytes}
    (marshalled : marshalEvents events = some message) :
    Delivered message (events.map fun event => (event.path, event.actionSimplified.getD "")) ↔
      ∀ event ∈ events, Utf8.Valid event.path := by
  obtain ⟨written, same, parses⟩ := marshalEvents_writes marshalled
  rw [same, delivered_iff (readMessage_parses readsFile_fileValue parses)]
  simp

end FSWatcher

/-- The C watcher reports the operation by its name. -/
def Watcher.reportedFile (file : Bytes × Watcher.OperationType) : Watcher.JsonEvent :=
  ⟨file.1, Watcher.operationTypeToString file.2⟩

/-- A message of either watcher is handled without an exception and with the scanner's strings
exactly if all its paths are valid. -/
theorem names_survive_iff (files : List (Bytes × Watcher.OperationType))
    (terminated : ∀ file ∈ files, 0 ∉ file.1) (events : List FSWatcher.Event) (message : Bytes)
    (marshalled : FSWatcher.marshalEvents events = some message) :
    (Delivered (Watcher.message (files.map Watcher.reportedFile))
        (files.map fun file => (file.1, Watcher.operationTypeToString file.2)) ↔
      ∀ file ∈ files, Utf8.Valid file.1) ∧
    (Delivered message (events.map fun event => (event.path, event.actionSimplified.getD "")) ↔
      ∀ event ∈ events, Utf8.Valid event.path) := by
  constructor
  · have named : ∀ operation, 0 ∉ Watcher.ascii (Watcher.operationTypeToString operation) := by
      intro operation
      cases operation <;> decide
    have delivered := Watcher.message_delivered_iff
      (List.forall_mem_map.mpr terminated :
        ∀ event ∈ files.map Watcher.reportedFile, 0 ∉ event.path)
      (List.forall_mem_map.mpr fun file _ => named file.2)
    rw [List.map_map, List.forall_mem_map] at delivered
    exact delivered
  · exact FSWatcher.message_delivered_iff marshalled

/-- This is the message of the Go watcher for a closed file. -/
def closedMessage : Bytes :=
  Utf8.encode ("\x7b\"events\":[\x7b\"operation\":\"close_for_write\"," ++
    "\"path\":\"/w/a\"\x7d]\x7d").toList

/-- Both watchers deliver a file with an ASCII name. -/
theorem names_survive_ascii :
    Delivered (Watcher.message [⟨[0x2f, 0x77, 0x2f, 0x61], "close_for_write"⟩])
        [([0x2f, 0x77, 0x2f, 0x61], "close_for_write")] ∧
      Delivered closedMessage [([0x2f, 0x77, 0x2f, 0x61], "close_for_write")] := by
  have both := names_survive_iff [([0x2f, 0x77, 0x2f, 0x61], .closeForWrite)] (by decide)
    [⟨some [0x2f, 0x77], [0x61], 0x8⟩] closedMessage (by decide +kernel)
  exact ⟨both.1.mpr (by decide +kernel), both.2.mpr (by decide +kernel)⟩

/-- A byte outside of UTF-8 ends the handling of the message of the C watcher, and the Go watcher
names another file. -/
theorem stray_byte_undelivered :
    readMessage (Watcher.message [⟨[0x2f, 0x77, 0x2f, 0xff], "close_for_write"⟩]) =
        ([], some .unicodeDecodeError) ∧
      (∃ message, FSWatcher.marshalEvents [⟨some [0x2f, 0x77], [0xff], 0x8⟩] = some message ∧
        readMessage message = ([⟨text "/w/\ufffd", .closeForWrite⟩], none)) ∧
      fsdecode [0x2f, 0x77, 0x2f, 0xff] ≠ text "/w/\ufffd" := by
  refine ⟨by decide +kernel, ⟨_, rfl, by decide +kernel⟩, by decide +kernel⟩

end ClamavDbscan
