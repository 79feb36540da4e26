/-
# Sessions

Source: `loadEnv`, `cliEnv.loadWorkspace`, `cliEnv.history`, `cliEnv.record`,
`cliEnv.resolvePaths`, `writeFiles`.

A command runs in a session: it reads and writes a disk, writes log records, takes
fresh run ids and looks at a clock.  It ends with a value or with a failure; what
it did until then stays done.

What the session does not change are its surroundings: the directory it starts
from, the environment variables, the parser, and where ids and times come from.
-/

import Moniker.Command.Disk
import Moniker.Path.Resolve
import Moniker.Report.Basic
import Moniker.Settings.Load
import Moniker.Syntax.Tree

namespace Moniker

/-- What a command finds around it. -/
structure Surroundings where
  /-- The directory that relative paths start from. -/
  cwd : String
  environment : List (String × String) := []
  /-- The tree of a source text, or the offset of a syntax error. -/
  parse : Language → ByteArray → Except Nat Tree
  build : BuildInfo := {}
  /-- The run ids, no two alike. -/
  runId : Nat → String
  /-- The times the clock shows. -/
  time : Nat → Instant

/-- What lasts from one command to the next. -/
structure World where
  disk : Disk := {}
  /-- How many run ids were given out. -/
  issued : Nat := 0
  /-- How often the clock was looked at. -/
  ticks : Nat := 0
deriving Inhabited

/-- Where the records of a session go. -/
structure LogSink where
  settings : LogSettings
  /-- The level asked for on the command line. -/
  asked : Option Level
  /-- The log file. -/
  path : Option String
deriving Inhabited

/-- A session under way. -/
structure SessionState where
  world : World
  log : Array LogEntry := #[]
  sink : Option LogSink := none
deriving Inhabited

/-- What runs in a session. -/
abbrev Session := ReaderT Surroundings (ExceptT Failure (StateM SessionState))

namespace Session

/-- Ends the session with a failure. -/
def fail (f : Failure) : Session α := throw f

/-- Goes on with a value, or ends with the failure. -/
def ofExcept : Except Failure α → Session α
  | .ok a => return a
  | .error f => throw f

/-- Runs something that may fail and tells how it ended. -/
def attempt (s : Session α) : Session (Except Failure α) :=
  tryCatch (do return .ok (← s)) fun f => return .error f

/-- The disk as it is. -/
def disk : Session Disk := do return (← get).world.disk

/-- Changes the disk. -/
def onDisk (f : Disk → Disk) : Session Unit :=
  modify fun s => { s with world := { s.world with disk := f s.world.disk } }

/-- A fresh run id. -/
def freshId : Session String := do
  let n := (← get).world.issued
  modify fun s => { s with world := { s.world with issued := n + 1 } }
  return (← read).runId n

/-- The time, later each time it is asked for. -/
def now : Session Instant := do
  let n := (← get).world.ticks
  modify fun s => { s with world := { s.world with ticks := n + 1 } }
  return (← read).time n

/-- Gives a record to a logger. -/
def log (logger : Logger) (level : Level) (message : String) (attributes : List LogAttribute) :
    Session Unit := do
  let time := (← read).time (← get).world.ticks
  let record : LogRecord :=
    { level := level, message := message, time := time, attributes := attributes }
  modify fun s => { s with log := s.log.push ⟨logger, record⟩ }

/-- The absolute form of a path. -/
def absolute (path : String) : Session String := do
  if Path.isAbsolute path then return Path.clean path
  else return Path.join [(← read).cwd, path]

end Session

/-- The failure of an operation on a path. -/
def DiskError.failure (e : DiskError) (operation path : String) : Failure :=
  .plain (operation ++ " " ++ path ++ ": " ++ e.message)

/-! ## The project a command works on -/

/-- What all commands can be told. -/
structure CommonOptions where
  root : String := "."
  verbosity : Int := 0
  quiet : Bool := false
deriving DecidableEq, Inhabited

/-- The level that the options ask for. -/
def CommonOptions.level? (o : CommonOptions) : Option Level :=
  if o.verbosity = 0 && !o.quiet then none else some (.ofVerbosity o.verbosity o.quiet)

/-- A project with its settings, and the logger of the command that works on it. -/
structure Project where
  root : String
  settings : Settings
  logger : Logger := []
deriving Inhabited

namespace Project

/-- Logs something about the project. -/
def log (p : Project) (level : Level) (message : String) (attributes : List LogAttribute) :
    Session Unit := Session.log p.logger level message attributes

/-- The project with more said of all its records. -/
def noting (p : Project) (attributes : List LogAttribute) : Project :=
  { p with logger := p.logger.with attributes }

/-- The settings of the project at a root, whether they are valid or not. -/
def settingsAt (root : String) : Session Settings := do
  let d ← Session.disk
  let bytes? := (Settings.places root).findSome? fun p => (d.read p).toOption
  match Settings.load (bytes?.map Text.decode) (← read).environment with
  | .ok s => return s
  | .error e => throw (e.failure none)

/-- Makes the log file, so that it is there even if nothing is logged. -/
def startLog (sink : LogSink) : Session Unit := do
  modify fun s => { s with sink := some sink }
  match sink.path with
  | none => pure ()
  | some path =>
    if !(← Session.disk).has path then Session.onDisk fun d => d.put path (.plain .empty)

/-- Opens the project that the options name. -/
def find (o : CommonOptions) : Session Project := do
  let root ← Session.absolute o.root
  let settings ← settingsAt root
  match settings.check with
  | .error i => throw i.failure
  | .ok () =>
    startLog
      { settings := settings.logging, asked := o.level?,
        path := settings.logging.filePath? (Settings.stateDir root) }
    return { root := root, settings := settings }

/-- The path that an argument means, relative to the root. -/
def resolve (p : Project) (argument : String) : Session String := do
  Session.ofExcept (Path.resolve argument p.root (← Session.disk).fileSystem)

/-! ## History -/

/-- Where the history of a project is kept. -/
def historyPath (root : String) : String := Path.join [Settings.stateDir root, "history.db"]

/-- The version of the history's layout. -/
def historyVersion : Nat := 1

/-- Opens the history, which is made if there is none. -/
def history (p : Project) : Session History := do
  let path := historyPath p.root
  match (← Session.disk).document? path with
  | some (.history h) =>
    p.log .debug "Run history schema is current" [("version", .int historyVersion)]
    return h
  | _ =>
    Session.onDisk fun d => d.put path (.history {})
    p.log .info "Migrated run history"
      [("path", .text path), ("from", .int 0), ("to", .int historyVersion)]
    return {}

/-- Writes the history back. -/
def saveHistory (p : Project) (h : History) : Session Unit :=
  Session.onDisk fun d => d.put (historyPath p.root) (.history h)

/-- Records a run, if the project keeps a history, and drops the oldest runs. -/
def record (p : Project) (run : Run) : Session Unit := do
  if p.settings.historyEnabled then
    match (← p.history).record run with
    | .error e =>
      p.log .warn "Failed to record run"
        [("runId", .text run.id), ("error", .text e.failure.text)]
    | .ok h =>
      let kept := if 0 < p.settings.historyKeep then h.prune p.settings.historyKeep else h
      p.saveHistory kept
      let dropped := h.runs.length - kept.runs.length
      if 0 < dropped then p.log .debug "Pruned run history" [("runs", .int dropped)]

end Project

/-! ## Ending a session -/

namespace LogSink

/-- The log file and its backups on a disk. -/
def filesOn (k : LogSink) (d : Disk) (path : String) : LogFiles :=
  let bytes? (p : String) : Option ByteArray := (d.read p).toOption
  { current := (bytes? path).getD .empty
    backups := (List.range k.settings.policy.depth).map fun n =>
      bytes? (path ++ "." ++ toString (n + 1)) }

/-- The disk after records were written to the log file. -/
def write (k : LogSink) (entries : List LogEntry) (d : Disk) : Disk :=
  match k.path with
  | none => d
  | some path =>
    let files := k.settings.logged k.asked entries (k.filesOn d path)
    let cleared := (List.range k.settings.policy.depth).foldl
      (fun d n => d.remove (path ++ "." ++ toString (n + 1))) d
    (files.named path).foldl (fun d f => d.put f.1 (.plain f.2)) cleared

end LogSink

end Moniker
