import ClamavDbscan.Construction.Watch.OnDemandWatcher
import ClamavDbscan.Library.Json
import ClamavDbscan.Library.Utf8

/-
This file models how `on_demand_watcher` reads a message of a watcher.
-/

namespace ClamavDbscan

theorem surrogate_lt (byte : UInt8) : 0xdc00 + byte.toNat < 0x110000 := by
  have small := byte.toNat_lt
  omega

/-- `os.fsdecode` keeps a stray byte as a lone surrogate. -/
def fsdecode (path : Bytes) : Str :=
  (Utf8.split path).map fun
    | .char char => codePoint char
    | .stray byte => ⟨0xdc00 + byte.toNat, surrogate_lt byte⟩

/-- The watcher compares the operation with these names. -/
def Operation.ofText (operation : Str) : Operation :=
  if operation = text "close_for_write" then .closeForWrite
  else if operation = text "move_to" then .moveTo
  else if operation = text "multiple" then .multiple
  else if operation = text "remove" then .remove
  else if operation = text "move_from" then .moveFrom
  else .unknown

/-- Another value is equal to none of the names. -/
def Operation.ofValue : Json.Value → Operation
  | .string operation => .ofText operation
  | _ => .unknown

/-- These exceptions end the task of the watcher. -/
inductive MessageError where
  | unicodeDecodeError
  | jsonDecodeError
  -- A member is missing, or a value has another type than its use needs.
  | lookupError
  deriving DecidableEq, Repr

/-- Both members must be there, and the path is used only by an operation that has an effect. -/
def readFileEvent (fileEventDict : Json.Value) : Option (Option FileEvent) :=
  match fileEventDict.get (text "path"), fileEventDict.get (text "operation") with
  | some (.string path), some operation => some (some ⟨path, .ofValue operation⟩)
  | some _, some operation => if Operation.ofValue operation = .unknown then some none else none
  | _, _ => none

/-- The events before a malformed one are handled. -/
def readFileEvents : List Json.Value → List FileEvent × Option MessageError
  | [] => ([], none)
  | value :: others =>
      match readFileEvent value with
      | none => ([], some .lookupError)
      | some event => (event.toList ++ (readFileEvents others).1, (readFileEvents others).2)

/-- The loop goes over the elements of a list, the keys of an object or the characters of a string. -/
def iterated : Json.Value → Option (List Json.Value)
  | .array elements => some elements
  | .object members => some (members.map fun member => .string member.1)
  | .string content => some (content.map fun point => .string [point])
  | _ => none

/-- A message gives the events that are handled and the exception that ends the handling. -/
def readMessage (data : Bytes) : List FileEvent × Option MessageError :=
  match Utf8.decode data with
  | none => ([], some .unicodeDecodeError)
  | some decoded =>
      match Json.loads decoded with
      | none => ([], some .jsonDecodeError)
      | some watchData =>
          match (watchData.get (text "events")).bind iterated with
          | some events => readFileEvents events
          | none => ([], some .lookupError)

end ClamavDbscan
