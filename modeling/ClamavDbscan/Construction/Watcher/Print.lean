import ClamavDbscan.Construction.Watcher.OnFsEvent
import ClamavDbscan.Library.Json
import ClamavDbscan.Library.Utf8

/-
This file models `cJSON_Print` and the message that the C watcher sends for its events.
-/

namespace ClamavDbscan.Watcher

/-- The watcher builds these values. -/
inductive CJson where
  | string (valuestring : Bytes)
  | array (elements : List CJson)
  | object (members : List (Bytes × CJson))

def ascii (literal : String) : Bytes := Utf8.encode literal.toList

/-- These letters follow the backslash of an escaped byte; the last case is `u%04x`. -/
def escapeLetters (byte : UInt8) : List Char :=
  if byte = 0x5c then ['\\']
  else if byte = 0x22 then ['"']
  else if byte = 0x08 then ['b']
  else if byte = 0x0c then ['f']
  else if byte = 0x0a then ['n']
  else if byte = 0x0d then ['r']
  else if byte = 0x09 then ['t']
  else ['u', '0', '0', Json.hexLetter (byte.toNat / 16), Json.hexLetter (byte.toNat % 16)]

def printByte (byte : UInt8) : Bytes :=
  if 31 < byte.toNat ∧ byte ≠ 0x22 ∧ byte ≠ 0x5c then [byte]
  else Utf8.encode ('\\' :: escapeLetters byte)

/-- A C string ends before its first zero byte. -/
def printStringPtr (input : Bytes) : Bytes :=
  ascii "\"" ++ ((input.takeWhile (· ≠ 0)).flatMap printByte ++ ascii "\"")

def tabs (depth : Nat) : Bytes := Utf8.encode (List.replicate depth '\t')

mutual

/-- The formatted output puts each member on its own line, and the depth is the indentation. -/
def printValue : (depth : Nat) → CJson → Bytes
  | _, .string valuestring => printStringPtr valuestring
  | depth, .array elements => ascii "[" ++ (printArray (depth + 1) elements ++ ascii "]")
  | depth, .object members =>
      ascii "\x7b\n" ++ (printObject (depth + 1) members ++ (tabs depth ++ ascii "\x7d"))

def printArray : (depth : Nat) → List CJson → Bytes
  | _, [] => []
  | depth, element :: others =>
      printValue depth element ++
        ((if others.isEmpty then [] else ascii ", ") ++ printArray depth others)

def printObject : (depth : Nat) → List (Bytes × CJson) → Bytes
  | _, [] => []
  | depth, (name, item) :: others =>
      tabs depth ++ (printStringPtr name ++ (ascii ":\t" ++ (printValue depth item ++
        ((if others.isEmpty then [] else ascii ",") ++ (ascii "\n" ++ printObject depth others)))))

end

def JsonEvent.json (event : JsonEvent) : CJson :=
  .object [(ascii "path", .string event.path), (ascii "operation", .string (ascii event.operation))]

/-- A document has its events under one key. -/
def document (events : List JsonEvent) : CJson :=
  .object [(ascii "events", .array (events.map JsonEvent.json))]

/-- The message of a document is its formatted text without the terminator. -/
def message (events : List JsonEvent) : Bytes := printValue 0 (document events)

end ClamavDbscan.Watcher
