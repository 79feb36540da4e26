/-
# The program

Source: `main`, `newContext`, `printOutput`, `exitWithError`.

Reads the files that a command line may be about, runs it, writes what has
changed and ends with its status.

Directories are read `depthLimit` levels deep.  Hidden ones are passed over, that
of the project's own state apart.
-/

import Moniker.Command.Document
import Moniker.Command.Execute

namespace Moniker
namespace Shell

/-- How deep directories are read. -/
def depthLimit : Nat := 64

/-- Is a directory of that name read? -/
def isRead (name : String) : Bool := name == ".tsmangle" || !Text.startsIn name "."

/-- Puts what is at a path, and below it, on a disk. -/
def readInto : Nat → String → Disk → IO Disk
  | 0, _, d => return d
  | depth + 1, path, d => do
    let place := (← IO.currentDir) / path
    if ← place.isDir then
      let entries ← place.readDir
      entries.foldlM (fun d e => do
        if !isRead e.fileName && (← e.path.isDir) then return d
        else readInto depth (Path.join [path, e.fileName]) d) (d.makeDir path)
    else if ← place.pathExists then
      let bytes ← IO.FS.readBinFile place
      return d.put path (Document.ofBytes path bytes)
    else return d

/-- Writes what is on one disk and not on another. -/
def writeBack (before after : Disk) : IO Unit := do
  let here ← IO.currentDir
  for (path, _) in before.documents do
    if (after.document? path).isNone then IO.FS.removeFile (here / path)
  for (path, doc) in after.documents do
    let old := (before.document? path).bind Document.toBytes?
    match doc.toBytes? with
    | none => pure ()
    | some bytes =>
      if old != some bytes then
        IO.FS.createDirAll (here / Path.dir path)
        IO.FS.writeBinFile (here / path) bytes

/-- A random number, written as a run id, and the `n`-th one after it. -/
def runId (seed n : Nat) : String :=
  let digits := Text.hex 32 (seed + n)
  let marked := digits.set 12 '4' |>.set 16 'a'
  let part (start count : Nat) : String := String.ofList ((marked.drop start).take count)
  Text.join "-" [part 0 8, part 8 4, part 12 4, part 16 4, part 20 12]

/-- A random number. -/
def randomSeed : IO Nat := do
  return (← IO.getRandomBytes 16).toList.foldl (fun n b => 256 * n + b.toNat) 0

/-- The time, as the file system has it. -/
def clock : IO Instant := do
  let (_, path) ← IO.FS.createTempFile
  let modified := (← path.metadata).modified
  IO.FS.removeFile path
  return { seconds := modified.sec, nanos := modified.nsec.toNat }

/-- The environment variables that override settings. -/
def overridesSet : IO (List (String × String)) := do
  let found ← SettingKey.all.mapM fun k => do
    return (← IO.getEnv k.override).map fun v => (k.override, v)
  return found.filterMap id

/-- The root that a command line names, relative to where it is run. -/
def rootOf (words : List String) : String :=
  match Command.read words with
  | .ok (.perform _ flags _) => (CommonOptions.ofFlags flags).root
  | _ => "."

/-- What is known of this build. -/
def buildInfo : BuildInfo :=
  { version := "0.4.0", commit := "unknown", buildDate := "unknown", toolchain := "unknown",
    platform := "unknown" }

end Shell
end Moniker

open Moniker in
/-- Runs a command line. -/
def main (words : List String) : IO UInt32 := do
  let cwd := (← IO.currentDir).toString
  let named := Shell.rootOf words
  let root := if Path.isAbsolute named then Path.clean named else Path.join [cwd, named]
  let start ← Shell.readInto Shell.depthLimit cwd {}
  let disk ← if Path.nested root cwd then pure start
    else Shell.readInto Shell.depthLimit root start
  let seed ← Shell.randomSeed
  let now ← Shell.clock
  let around : Surroundings :=
    { cwd := cwd
      environment := ← Shell.overridesSet
      parse := (disk.trees root).parse
      build := Shell.buildInfo
      runId := Shell.runId seed
      time := fun n => { now with nanos := now.nanos + n } }
  let (outcome, world) := runLine around words { disk := disk }
  Shell.writeBack disk world.disk
  (← IO.getStdout).putStr outcome.output
  (← IO.getStderr).putStr outcome.errors
  return outcome.status.toUInt32
