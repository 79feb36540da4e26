/-
# Log records

Source: `slogutil.LevelFromString`, `LevelFromVerbosity`, `levelName`.

A record has a level, a message, a time and attributes.  An attribute is a key
with a value; a group is a value that is a list of attributes.

A logger carries what is said of all its records: attributes it has been given,
and groups it has opened, each of which qualifies whatever comes after it.
-/

import Moniker.Data.Instant
import Moniker.Text.Case

namespace Moniker

/-- How much a record matters; the named levels are four apart. -/
structure Level where
  value : Int
deriving DecidableEq, Inhabited

namespace Level

def debug : Level := ⟨-4⟩
def info : Level := ⟨0⟩
def warn : Level := ⟨4⟩
def error : Level := ⟨8⟩

/-- Above every level that is used. -/
def silent : Level := ⟨100⟩

/-- Is a record of level `l` written where `threshold` is asked for? -/
def reaches (l threshold : Level) : Bool := threshold.value ≤ l.value

/-- The named level at or below a level; what is below all of them is debugging. -/
def band (l : Level) : Level :=
  if l.value < info.value then debug
  else if l.value < warn.value then info
  else if l.value < error.value then warn
  else error

/-- The name of a band. -/
def name (l : Level) : String :=
  if l.band = debug then "debug"
  else if l.band = info then "info"
  else if l.band = warn then "warn"
  else "error"

/-- The band in capitals, and the distance from it. -/
def exactName (l : Level) : String :=
  let above := l.value - l.band.value
  let base := l.name.toUpper
  if above = 0 then base
  else if above < 0 then base ++ toString above
  else base ++ "+" ++ toString above

/-- The level of a name, in any case; an unknown name is an ordinary level. -/
def ofName (s : String) : Level :=
  match Text.lower s with
  | "debug" => debug
  | "warn" => warn
  | "warning" => warn
  | "error" => error
  | _ => info

/-- The level for how often more was asked for, or for silence. -/
def ofVerbosity (count : Int) (quiet : Bool) : Level :=
  if quiet then silent
  else if count ≤ 0 then warn
  else if count = 1 then info
  else debug

end Level

/-- The value of an attribute. -/
inductive LogValue where
  | text (s : String)
  | int (n : Int)
  | bool (b : Bool)
  | span (d : Span)
  | time (t : Instant)
  | texts (items : List String)
  | nothing
  | group (attributes : List (String × LogValue))
deriving Inhabited

/-- A key with a value. -/
abbrev LogAttribute := String × LogValue

/-- What happened. -/
structure LogRecord where
  level : Level
  message : String
  time : Instant := .zero
  attributes : List LogAttribute := []
deriving Inhabited

/-- Something said of all later records of a logger. -/
inductive LogStep where
  /-- Qualifies what comes after it. -/
  | group (name : String)
  /-- Adds attributes. -/
  | attach (attributes : List LogAttribute)
deriving Inhabited

/-- A logger, by what is said of its records. -/
abbrev Logger := List LogStep

/-- A logger with more attributes. -/
def Logger.with (l : Logger) (attributes : List LogAttribute) : Logger := l ++ [.attach attributes]

/-- A record and the logger it was given to. -/
structure LogEntry where
  logger : Logger
  record : LogRecord
deriving Inhabited

end Moniker
