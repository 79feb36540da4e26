/-
# Where log records go

Source: `slogutil.LoggerFactory.Logger`, `handler`, `effectiveLevel`, `fanout.Handle`.

Records go to the console and, if a file is named, to a rotated log file.  Both
get the records of one level and above: the level asked for on the command line,
else the configured one, else warnings.  Lines in a file begin with a time,
lines on the console do not.
-/

import Moniker.Log.ByteSize
import Moniker.Log.Line
import Moniker.Log.Object
import Moniker.Log.Rotation
import Moniker.Path

namespace Moniker

/-- How logs are written. -/
structure LogSettings where
  /-- `human` or `json`. -/
  format : String := ""
  /-- The name of a level, or nothing. -/
  level : String := ""
  /-- The log file, or nothing. -/
  file : String := ""
  maxSize : String := ""
  maxBackups : Int := 0
deriving DecidableEq, Inhabited

namespace LogSettings

/-- Are records written as objects? -/
def asObjects (s : LogSettings) : Bool := Text.lower s.format = "json"

/-- The level from which on records are written. -/
def threshold (s : LogSettings) (asked : Option Level) : Level :=
  match asked with
  | some l => l
  | none => if s.level = "" then .warn else .ofName s.level

/-- When the log file is rotated. -/
def policy (s : LogSettings) : LogPolicy :=
  { maxSize := ByteSize.ofText s.maxSize, maxBackups := s.maxBackups }

/-- The path of the log file, which a relative one has below the state directory. -/
def filePath? (s : LogSettings) (stateDir : String) : Option String :=
  if s.file = "" then none
  else if Path.isAbsolute s.file then some s.file
  else some (Path.join [stateDir, s.file])

/-- An entry as it is written; `timed` says whether lines begin with a time. -/
def render (s : LogSettings) (timed : Bool) (e : LogEntry) : String :=
  if s.asObjects then e.logger.objectLine e.record else e.logger.line timed e.record

/-- The entries that are written. -/
def enabled (s : LogSettings) (asked : Option Level) (entries : List LogEntry) : List LogEntry :=
  entries.filter fun e => e.record.level.reaches (s.threshold asked)

/-- What the console shows. -/
def console (s : LogSettings) (asked : Option Level) (entries : List LogEntry) : String :=
  String.join ((s.enabled asked entries).map (s.render false))

/-- The log file after the entries. -/
def logged (s : LogSettings) (asked : Option Level) (entries : List LogEntry) (files : LogFiles) :
    LogFiles :=
  files.writeAll s.policy ((s.enabled asked entries).map fun e => Text.encode (s.render true e))

end LogSettings
end Moniker
