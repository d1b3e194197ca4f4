import ClamavDbscan.Construction.Scanner.Reply

/-
This file models the `files` table and `ClamAVDB.scan_file`.
-/

namespace ClamavDbscan

/-- These are the columns of one row beside its path. -/
structure Row where
  mtimeEpoch : Int
  filesize : Nat
  status : Str
  scannedAt : Str
  scanResults : Str
  deriving DecidableEq

/-- The path is the primary key, so a path has at most one row. -/
abbrev Files := Str → Option Row

namespace ClamAVDB

/-- A lookup binds the path as UTF-8 before it searches. -/
def getItem (files : Files) (path : Str) : Except PyException ClamAVDBFileMetadata :=
  if path.any isSurrogate then .error ⟨.unicodeEncodeError, path⟩
  else
    match files path with
    | none => .error ⟨.keyError, path⟩
    | some row => .ok ⟨path, row.mtimeEpoch, row.filesize, true, row.status, row.scannedAt,
        row.scanResults⟩

def contains (files : Files) (path : Str) : Bool := (getItem files path).isOk

def insertOrReplace (files : Files) (result : ClamAVDBFileMetadata) : Files :=
  Function.update files result.path
    (some ⟨result.mtimeEpoch, result.filesize, result.status, result.scannedAt, result.scanResults⟩)

/-- The statement binds the path as UTF-8 before it deletes the row. -/
def removeFile (files : Files) (path : Str) : Except PyException Files :=
  if path.any isSurrogate then .error ⟨.unicodeEncodeError, path⟩
  else .ok (Function.update files path none)

/-- A cached record counts when its size and whole second agree with the stat. -/
def cacheAgrees (stat : StatResult) (cached : ClamAVDBFileMetadata) : Bool :=
  stat.stSize == cached.filesize && toInt stat.stMtime == cached.mtimeEpoch

/-- The lookup step of `scan_file` returns a record, falls through, or raises. -/
def cachedResult (files : Files) (path : Str) (cacheOk : Bool) (stat : StatResult) :
    Except PyException (Option ClamAVDBFileMetadata) :=
  if cacheOk then
    match getItem files path with
    | .ok cached => .ok (if cacheAgrees stat cached then some cached else none)
    | .error raised => if raised.kind = .keyError then .ok none else .error raised
  else .ok none

/-- The last step of `scan_file` stores and returns a fresh result. -/
def storeResult (files : Files) (path : Str) (result : ClamAVDBFileMetadata) :
    Except PyException ClamAVDBFileMetadata × Files :=
  if result.path = path then (.ok result, insertOrReplace files result)
  else (.error ⟨.assertionError, []⟩, files)

/-- One call that nothing interrupts takes two stats and at most one reply. -/
def scanFile (files : Files) (path : Str) (cacheOk : Bool)
    (lstat scanLstat : Except PyException StatResult) (reply now : Str) :
    Except PyException ClamAVDBFileMetadata × Files :=
  match lstat with
  | .error raised => (.error raised, files)
  | .ok stat =>
      match cachedResult files path cacheOk stat with
      | .error raised => (.error raised, files)
      | .ok (some cached) => (.ok cached, files)
      | .ok none =>
          match ClambScanMgr.scan path none scanLstat reply now with
          | .error raised => (.error raised, files)
          | .ok result => storeResult files path result

end ClamAVDB

end ClamavDbscan
