/-
# Log files that are rotated

Source: `slogutil.OpenRotatingFile`, `RotatingFile.Write`, `RotatingFile.rotate`,
`RotatingFile.Close`.

A log is a current file and numbered backups, the first being the newest.  A
record is appended to the current file.  If it would grow past the limit, the
files are renamed first: the backup with the highest number goes, each of the others
moves up by one, the highest first, and the current file becomes backup one.

| limit | effect |
| --- | --- |
| size not positive | the log is never rotated |
| no backups | the current file is dropped |

A record is never split, and an empty file is never rotated.  How large the current
file is, an open log knows from when it was opened and from what it has written since.
-/

import Moniker.Text.Bytes

namespace Moniker

/-- When a log is rotated and how much of it is kept. -/
structure LogPolicy where
  maxSize : Int := 0
  maxBackups : Int := 0
deriving DecidableEq, Inhabited

/-- The files of a log; a backup can be missing. -/
structure LogFiles where
  current : ByteArray := .empty
  backups : List (Option ByteArray) := []
deriving Inhabited

namespace LogPolicy

/-- How many backups take part in a rotation. -/
def depth (p : LogPolicy) : Nat := max 1 p.maxBackups.toNat

/-- Does the current file have to make room for a record? -/
def overflows (p : LogPolicy) (size record : Nat) : Bool :=
  0 < p.maxSize && 0 < size && p.maxSize < (size : Int) + record

end LogPolicy

namespace LogFiles

/-- Puts a backup behind so many others, over what is there; missing ones fill a gap. -/
def putAt (backups : List (Option ByteArray)) (n : Nat) (b : ByteArray) :
    List (Option ByteArray) :=
  (backups ++ List.replicate (n + 1 - backups.length) none).set n (some b)

/-- Renames the backup behind so many others to the next number, over what is there.  If it is
missing, nothing is renamed. -/
def moveUp (backups : List (Option ByteArray)) (n : Nat) : List (Option ByteArray) :=
  match backups[n]?.join with
  | none => backups
  | some b => (putAt backups (n + 1) b).set n none

/-- Makes room for a new backup one below the highest number. -/
def shiftUp (highest : Nat) (backups : List (Option ByteArray)) : List (Option ByteArray) :=
  (List.range (highest - 1)).reverse.foldl moveUp
    (if highest = 0 then backups else backups.set (highest - 1) none)

/-- Starts a new current file. -/
def rotate (p : LogPolicy) (f : LogFiles) : LogFiles :=
  if p.maxBackups = 0 then { f with current := .empty }
  else
    { current := .empty
      backups := putAt (shiftUp p.maxBackups.toNat f.backups) 0 f.current }

/-- Appends a record. -/
def append (f : LogFiles) (record : ByteArray) : LogFiles :=
  { f with current := f.current ++ record }

/-- The backups of a list with their paths. -/
def backupsFrom (path : String) : Nat → List (Option ByteArray) → List (String × ByteArray)
  | _, [] => []
  | n, none :: rest => backupsFrom path (n + 1) rest
  | n, some b :: rest => (path ++ "." ++ toString n, b) :: backupsFrom path (n + 1) rest

/-- The files of a log with their paths: the current one, then the backups. -/
def named (f : LogFiles) (path : String) : List (String × ByteArray) :=
  (path, f.current) :: backupsFrom path 1 f.backups

end LogFiles

/-- A log that is open for writing, or was. -/
structure OpenLog where
  policy : LogPolicy
  files : LogFiles := {}
  isOpen : Bool := true
  /-- The size of the current file. -/
  size : Nat := 0
deriving Inhabited

/-- Why a record is not written. -/
inductive WriteError where
  | closed
deriving DecidableEq, Inhabited

/-- The text of an error. -/
def WriteError.message : WriteError → String
  | closed => "file already closed"

namespace OpenLog

/-- Opens the files of a log. -/
def ofFiles (p : LogPolicy) (f : LogFiles) : OpenLog :=
  { policy := p, files := f, size := f.current.size }

/-- Makes room for a record if it does not fit. -/
def makeRoom (l : OpenLog) (record : ByteArray) : OpenLog :=
  if l.policy.overflows l.size record.size then .ofFiles l.policy (l.files.rotate l.policy) else l

/-- Appends a record. -/
def append (l : OpenLog) (record : ByteArray) : OpenLog :=
  { l with files := l.files.append record, size := l.size + record.size }

/-- Writes a record and says how many bytes that were. -/
def write (l : OpenLog) (record : ByteArray) : OpenLog × Except WriteError Nat :=
  if l.isOpen then ((l.makeRoom record).append record, .ok record.size)
  else (l, .error .closed)

/-- Writes records one after the other. -/
def writeAll (l : OpenLog) (records : List ByteArray) : OpenLog :=
  records.foldl (fun l r => (l.write r).1) l

/-- Closes the log. -/
def close (l : OpenLog) : OpenLog := { l with isOpen := false }

/-- Opens the log again. -/
def reopen (l : OpenLog) : OpenLog := .ofFiles l.policy l.files

end OpenLog

/-- Opens a log and writes records to it. -/
def LogFiles.writeAll (p : LogPolicy) (f : LogFiles) (records : List ByteArray) : LogFiles :=
  ((OpenLog.ofFiles p f).writeAll records).files

end Moniker
