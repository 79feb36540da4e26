/-
# Files of a project

A disk has directories and documents, each at an absolute clean path.  A document
is plain bytes, a symbol index or a history: the last two are kept as what they
mean and not as the bytes some encoding of them would have.

Writing a document makes the directories above it; removing it leaves them.
-/

import Moniker.History.Basic
import Moniker.Index.Basic
import Moniker.Path.Follow

namespace Moniker

/-- What a file holds. -/
inductive Document where
  | plain (bytes : ByteArray)
  | index (i : Index)
  | history (h : History)
deriving Inhabited

/-- Directories and documents by path. -/
structure Disk where
  dirs : List String := []
  documents : List (String × Document) := []
deriving Inhabited

/-- Why a path cannot be read or written. -/
inductive DiskError where
  | missing
  | isDirectory
  | notDirectory
deriving DecidableEq, Inhabited

/-- The text of an error. -/
def DiskError.message : DiskError → String
  | missing => "no such file or directory"
  | isDirectory => "is a directory"
  | notDirectory => "not a directory"

namespace Disk

/-- The document at a path. -/
def document? (d : Disk) (path : String) : Option Document :=
  (d.documents.find? fun e => e.1 == path).map Prod.snd

/-- Is there a directory at the path? -/
def isDir (d : Disk) (path : String) : Bool := path == "/" || d.dirs.contains path

/-- Is there anything at the path? -/
def has (d : Disk) (path : String) : Bool := d.isDir path || (d.document? path).isSome

/-- What the disk tells about a path; there are no links on it. -/
def fileSystem (d : Disk) : FileSystem := .ofStat fun path =>
  if d.isDir (Path.clean path) then .directory
  else if (d.document? (Path.clean path)).isSome then .file
  else .missing

/-- The paths of the directories above a path, the nearest first; `fuel` bounds
their number. -/
def aboveWithin : Nat → String → List String
  | 0, _ => []
  | fuel + 1, path => if path == "/" then [] else Path.dir path :: aboveWithin fuel (Path.dir path)

/-- The paths of the directories above a path, the nearest first. -/
def above (path : String) : List String := aboveWithin path.length path

/-- What is in the way of reading a path. -/
def obstacle (d : Disk) (path : String) : DiskError :=
  if d.isDir path then .isDirectory
  else if (above path).any fun p => (d.document? p).isSome then .notDirectory
  else .missing

/-- The bytes at a path. -/
def read (d : Disk) (path : String) : Except DiskError ByteArray :=
  match d.document? path with
  | some (.plain bytes) => .ok bytes
  | some _ => .ok .empty
  | none => .error (d.obstacle path)

/-- Makes a directory and those above it. -/
def makeDir (d : Disk) (path : String) : Disk :=
  { d with dirs := ((path :: above path).filter fun p => !d.isDir p) ++ d.dirs }

/-- Puts a document at a path, whatever is there. -/
def put (d : Disk) (path : String) (doc : Document) : Disk :=
  let d := d.makeDir (Path.dir path)
  if (d.document? path).isSome then
    { d with documents := d.documents.map fun e => if e.1 == path then (path, doc) else e }
  else { d with documents := d.documents ++ [(path, doc)] }

/-- Removes the document at a path. -/
def remove (d : Disk) (path : String) : Disk :=
  { d with documents := d.documents.filter fun e => e.1 != path }

/-- The first document on the way to a path, from the top. -/
def blocking? (d : Disk) (path : String) : Option String :=
  (above path).reverse.find? fun p => (d.document? p).isSome

/-- The paths of the documents below a directory. -/
def below (d : Disk) (dir : String) : List String :=
  let head := if dir == "/" then "/" else dir ++ "/"
  (d.documents.map Prod.fst).filter fun p => Text.startsIn p head

end Disk
end Moniker
