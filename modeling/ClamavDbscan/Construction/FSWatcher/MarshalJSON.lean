import ClamavDbscan.Construction.FSWatcher.ParseEventBuffer
import ClamavDbscan.Library.Json
import ClamavDbscan.Library.Utf8

/-
This file models the JSON text that the Go watcher sends for its events.
-/

namespace ClamavDbscan.FSWatcher

open Fanotify

/-- A mask without a marked bit is an error. -/
def parseEventMaskSimplified (mask : Nat) : Option String :=
  match operationsOf mask with
  | [] => none
  | [event] => some event
  | _ :: _ :: _ => some "multiple"

def missingDirpath : Bytes := Utf8.encode "!!!MISSING DIRPATH!!!".toList

namespace Event

def path (event : Event) : Bytes := event.dirpath.getD missingDirpath ++ slash :: event.filename

/-- The method panics on an error of the mask. -/
def actionSimplified (event : Event) : Option String := parseEventMaskSimplified event.eventMask

/-- The encoder replaces every stray byte of a string by the replacement character, so the object
has this path and this operation. -/
def members (event : Event) : Option (Bytes × String) :=
  event.actionSimplified.map fun operation => (Utf8.encode (Utf8.repair event.path), operation)

end Event

/-- The encoder escapes what is not safe in HTML and the two line separators of JavaScript. -/
def escapeChar (char : Char) : List Char :=
  if char = '\\' ∨ char = '"' then ['\\', char]
  else if char = '\x08' then ['\\', 'b']
  else if char = '\x0c' then ['\\', 'f']
  else if char = '\n' then ['\\', 'n']
  else if char = '\r' then ['\\', 'r']
  else if char = '\t' then ['\\', 't']
  else if char.toNat < 0x20 ∨ char = '<' ∨ char = '>' ∨ char = '&' then
    ['\\', 'u', '0', '0', Json.hexLetter (char.toNat / 16), Json.hexLetter (char.toNat % 16)]
  else if char = '\u2028' then ['\\', 'u', '2', '0', '2', '8']
  else if char = '\u2029' then ['\\', 'u', '2', '0', '2', '9']
  else [char]

def escapePiece : Utf8.Piece → List Char
  | .char char => escapeChar char
  | .stray _ => ['\\', 'u', 'f', 'f', 'f', 'd']

def appendString (bytes : Bytes) : List Char :=
  '"' :: (Utf8.split bytes).flatMap escapePiece ++ ['"']

/-- The encoder sorts the keys of an object. -/
def marshalJSON (event : Event) : Option (List Char) :=
  event.actionSimplified.map fun operation =>
    "\x7b\"operation\":".toList ++ (appendString (Utf8.encode operation.toList) ++
      (",\"path\":".toList ++ (appendString event.path ++ "\x7d".toList)))

/-- The elements of a list have commas between them. -/
def joinElements : List (List Char) → List Char
  | [] => []
  | element :: others =>
      element ++ ((if others.isEmpty then [] else ",".toList) ++ joinElements others)

/-- A batch is sent as one object. -/
def marshalEvents (events : List Event) : Option Bytes :=
  (events.mapM marshalJSON).map fun elements =>
    Utf8.encode ("\x7b\"events\":[".toList ++ (joinElements elements ++ "]\x7d".toList))

end ClamavDbscan.FSWatcher
