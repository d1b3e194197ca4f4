import ClamavDbscan.Construction.Text
import ClamavDbscan.Library.Backtrack
import Mathlib.Data.Rat.Defs

/-
This file models `ClambScanMgr.scan` and the pattern that reads clamd's reply.
-/

namespace ClamavDbscan

open Backtrack

/-- These are the exceptions that a scan and the loop of `main` can raise. -/
inductive ExceptionKind where
  | fileNotFoundError
  | permissionError
  | notADirectoryError
  | osError (errno : Nat)
  | notRegularFileError
  | keyError
  | unicodeEncodeError
  | indexError
  | assertionError
  | valueError
  | zeroDivisionError
  deriving DecidableEq, Repr

/-- An exception has a type and the text of its argument. -/
structure PyException where
  kind : ExceptionKind
  message : Str
  deriving DecidableEq

inductive FileMode where
  | regular
  | link
  | other
  deriving DecidableEq, Repr

/-- These are the fields of `os.lstat` that the scanner reads. -/
structure StatResult where
  stMode : FileMode
  stSize : Nat
  stMtime : ℚ
  deriving DecidableEq

/-- `int` truncates toward zero. -/
def toInt (number : ℚ) : Int := number.num.tdiv number.den

structure ClamAVDBFileMetadata where
  path : Str
  mtimeEpoch : Int
  filesize : Nat
  pulledFromCache : Bool
  status : Str
  scannedAt : Str
  scanResults : Str
  deriving DecidableEq

namespace ClamAVDBFileMetadata

def ok (metadata : ClamAVDBFileMetadata) : Bool := metadata.status == text "OK"

def logLine (metadata : ClamAVDBFileMetadata) : Str :=
  (if metadata.pulledFromCache then text "FROM CACHE" else text "SCANNED") ++ text ":" ++
    metadata.scannedAt ++ text "|" ++ metadata.path ++ text "|mtime:" ++
    decimal metadata.mtimeEpoch ++ text "|" ++ decimal metadata.filesize ++ text " bytes|" ++
    metadata.status ++ text "|" ++ metadata.scanResults

end ClamAVDBFileMetadata

/-- The dot accepts everything except a newline. -/
def dot (point : CodePoint) : Bool := point != newline

/-- This is `^(.+?):\s(.+?)?\s*(ERROR|OK|FOUND)`; a match always begins at the start. -/
def scanResultsRe : Pattern CodePoint :=
  .seq (.group 1 (.many .lazy 1 dot)) <| .seq (.literal [colon]) <| .seq (.one isSpace) <|
    .seq (.optional (.group 2 (.many .lazy 1 dot))) <| .seq (.many .greedy 0 isSpace) <|
      .group 3 (.alt (.literal (text "ERROR")) (.alt (.literal (text "OK")) (.literal (text "FOUND"))))

/-- The reader keeps the stripped lines that are not empty. -/
def replyLines (reply : Str) : List Str :=
  ((reply.splitOn newline).map rstrip).filter (· ≠ [])

/-- The first line gives the status, and its file name must be the requested path. A line
without a match first enters the debugger, and its assertion fails when the debugger goes on. -/
def parseReply (path : Str) (stat : StatResult) (lines : List Str) (now : Str) :
    Except PyException ClamAVDBFileMetadata :=
  match lines with
  | [] => .error ⟨.indexError, text "list index out of range"⟩
  | firstline :: _ =>
      match scanResultsRe.matchStart firstline with
      | none => .error ⟨.assertionError, []⟩
      | some groups =>
          match groups 1, groups 3 with
          | some filename, some status =>
              if filename = path then
                .ok ⟨path, toInt stat.stMtime, stat.stSize, false, status, now, joinLines lines⟩
              else .error ⟨.assertionError, []⟩
          | _, _ => .error ⟨.assertionError, []⟩

namespace ClambScanMgr

/-- A scan without a given stat takes its own and accepts regular files and links. -/
def statForScan (path : Str) (stat : Option StatResult)
    (lstat : Except PyException StatResult) : Except PyException StatResult :=
  match stat with
  | some given => .ok given
  | none =>
      lstat.bind fun taken =>
        if taken.stMode = .regular ∨ taken.stMode = .link then .ok taken
        else .error ⟨.notRegularFileError, path⟩

/-- `SCAN <path>` must encode before it is sent. -/
def sendScan (path : Str) : Except PyException Unit :=
  if path.any isSurrogate then .error ⟨.unicodeEncodeError, path⟩ else .ok ()

/-- The reply is the text that clamd sends for the path after clamd has started. -/
def scan (path : Str) (stat : Option StatResult) (lstat : Except PyException StatResult)
    (reply now : Str) : Except PyException ClamAVDBFileMetadata :=
  (statForScan path stat lstat).bind fun taken =>
    (sendScan path).bind fun _ => parseReply path taken (replyLines reply) now

end ClambScanMgr

end ClamavDbscan
