/-
# Workspaces

Source: `workspace.Load`, `Scan`, `LoadFiles`, `FromSources`, `Workspace.Select`,
`Workspace.WriteFile`.

A workspace is the source files below a directory and the program built from
them.  Hidden directories and those the settings name are passed over.

Files are known by their paths relative to the project root; they are parsed and
written in the order of these paths.
-/

import Moniker.Command.Session
import Moniker.Program.Build

namespace Moniker

/-- Source files by path, and the program built from them. -/
structure Workspace where
  project : Project
  sources : List (String × ByteArray)
  program : Program
deriving Inhabited

namespace Workspace

/-- Is a directory of that name passed over? -/
def isIgnored (ignored : List String) (name : String) : Bool :=
  ignored.contains name || Text.startsIn name "."

/-- The source files of a disk below a directory, relative to it and in order. -/
def sourcesBelow (d : Disk) (dir : String) (ignored : List String) : List String :=
  let ignored := if ignored.isEmpty then Settings.defaults.ignoreDirs else ignored
  let found := (d.below dir).filterMap fun path =>
    (Path.relative? dir path).filter fun rel =>
      isSourcePath path && !(Path.segments rel).dropLast.any (isIgnored ignored)
  Text.sort found

/-- Lists the source files below a directory. A source file in its place is found
itself. -/
def scan (dir : String) (ignored : List String) : Session (List String) := do
  let d ← Session.disk
  if d.isDir dir then return sourcesBelow d dir ignored
  else if (d.document? dir).isSome then return if isSourcePath dir then ["."] else []
  else throw (.during ("failed to scan " ++ dir) ((d.obstacle dir).failure "lstat" dir))

/-- Reads a source file. -/
def readSource (root rel : String) : Session ByteArray := do
  let path := Path.joinRoot root rel
  match (← Session.disk).read path with
  | .ok bytes => return bytes
  | .error .missing =>
    throw (.coded
      { code := .fileNotFound, message := "source file not found: " ++ rel,
        cause := some (DiskError.missing.failure "open" path).text })
  | .error e => throw (.during ("failed to read " ++ rel) (e.failure "read" path))

/-- Parses a source file. -/
def parseFile (rel : String) (contents : ByteArray) : Session ParsedFile := do
  match Language.ofPath? rel with
  | none => throw (.of .parseFailed ("unsupported file type: " ++ rel))
  | some language =>
    match (← read).parse language contents with
    | .ok tree => return { path := rel, contents := contents, tree := tree }
    | .error offset =>
      throw (.coded
        { code := .parseFailed, message := "syntax error in " ++ rel,
          place := some ⟨rel, offset⟩ })

/-- Logs what was found out about a program when it was built. -/
def logProgram (project : Project) (p : Program) : Session Unit := do
  for f in p.source.fileIds do
    let count := (p.effectRoots f).length
    if 0 < count then
      project.log .debug "effect roots"
        [("file", .text (p.source.file f).path), ("count", .int count)]
  project.log .debug "program bound"
    [("files", .int p.source.fileIds.length), ("ambientModules", .int p.ambientByName.size),
      ("symbols", .int p.symbols.size), ("types", .int p.types.size)]

/-- Builds a workspace from contents by path. -/
def ofSources (project : Project) (sources : List (String × ByteArray)) : Session Workspace := do
  let sources := sources.mergeSort fun a b => Text.lexLe a.1 b.1
  let files ← sources.mapM fun (rel, contents) => parseFile rel contents
  let program ← Session.ofExcept (Program.build files)
  logProgram project program
  project.log .debug "Loaded workspace"
    [("root", .text project.root), ("files", .int sources.length)]
  return { project := project, sources := sources, program := program }

/-- Loads files by their paths. -/
def loadFiles (project : Project) (rels : List String) : Session Workspace := do
  let sources ← rels.mapM fun rel => do return (rel, ← readSource project.root rel)
  ofSources project sources

/-- Loads all source files of a project. -/
def load (project : Project) : Session Workspace := do
  loadFiles project (← scan project.root project.settings.ignoreDirs)

/-- The contents of a file. -/
def contents? (w : Workspace) (path : String) : Option ByteArray :=
  (w.sources.find? fun s => s.1 == path).map Prod.snd

/-- All files. -/
def files (w : Workspace) : List FileId := w.program.source.fileIds

/-- The files at some paths, or all of them where none are given. -/
def select (w : Workspace) (rels : List String) : Session (List FileId) :=
  if rels.isEmpty then return w.files
  else rels.mapM fun rel =>
    match w.program.fileAt? rel with
    | some f => return f
    | none => throw (.of .fileNotFound (rel ++ " is not part of the workspace"))

/-- Writes a file below the root. -/
def write (project : Project) (rel : String) (contents : ByteArray) : Session Unit := do
  let path := Path.joinRoot project.root rel
  let d ← Session.disk
  match d.blocking? path with
  | some p =>
    throw (.during ("failed to create directory for " ++ rel)
      (DiskError.notDirectory.failure "mkdir" p))
  | none =>
    if d.isDir path then
      throw (.during ("failed to write " ++ rel) (DiskError.isDirectory.failure "open" path))
    else
      Session.onDisk fun d => d.put path (.plain contents)
      project.log .debug "Wrote file" [("path", .text rel), ("bytes", .int contents.size)]

/-- Writes files in the order of their paths. -/
def writeAll (project : Project) (files : List (String × ByteArray)) : Session Unit :=
  (files.mergeSort fun a b => Text.lexLe a.1 b.1).forM fun (rel, contents) =>
    write project rel contents

end Workspace
end Moniker
