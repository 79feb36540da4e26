/-
# Log records as lines

Source: `slogutil.LineHandler.Handle`, `WithAttrs`, `WithGroup`, `appendAttr`,
`appendValue`, `appendText`.

A record is one line:

    [warn] Entry failed | entry=app error="no symbol at offset 4"

Groups are flattened: a key is qualified by the groups around it, with dots in
between.  An attribute without a key is left out, unless it is a group, which
then qualifies nothing.  A text is quoted if it would not read back as one value.

What is given to a logger is written once, when it is given.
-/

import Moniker.Log.Record
import Moniker.Text.Quoted

namespace Moniker

namespace LogValue

/-- Must a text be quoted? -/
def needsQuotes (s : String) : Bool :=
  s = "" || s.toList.any fun c =>
    c = ' ' || c = '=' || c = '"' || c = '\t' || c = '\n' || c = '|'

/-- A text, quoted if it has to be. -/
def lineText (s : String) : String := if needsQuotes s then Text.quote s else s

/-- A value on a line. -/
def onLine : LogValue → String
  | .text s => lineText s
  | .int n => toString n
  | .bool b => if b then "true" else "false"
  | .span d => d.toMicros.text
  | .time t => t.utc.brief
  | .texts items => lineText ("[" ++ Text.join " " items ++ "]")
  | .nothing => lineText "<nil>"
  | .group _ => ""

mutual

/-- A value under a key, as it is written on a line. -/
def written (qualifier key : String) : LogValue → String
  | .group attributes =>
    writtenAll (if key = "" then qualifier else qualifier ++ key ++ ".") attributes
  | v => if key = "" then "" else " " ++ qualifier ++ key ++ "=" ++ v.onLine

/-- Attributes, as they are written on a line. -/
def writtenAll (qualifier : String) : List LogAttribute → String
  | [] => ""
  | (key, v) :: rest => written qualifier key v ++ writtenAll qualifier rest

end

end LogValue

namespace Logger

/-- What a logger adds to a line: the open groups, and the attributes so far as they are
written. -/
structure LineScope where
  qualifier : String := ""
  written : String := ""

/-- Takes one step of a logger into account. -/
def LineScope.step (s : LineScope) : LogStep → LineScope
  | .group name => if name = "" then s else { s with qualifier := s.qualifier ++ name ++ "." }
  | .attach attributes =>
    { s with written := s.written ++ LogValue.writtenAll s.qualifier attributes }

/-- What a logger adds to a line. -/
def lineScope (l : Logger) : LineScope := l.foldl LineScope.step {}

/-- The part of a line that holds attributes. -/
def attributeSection (l : Logger) (r : LogRecord) : String :=
  let s := l.lineScope
  let written := s.written ++ LogValue.writtenAll s.qualifier r.attributes
  if written = "" then "" else " |" ++ written

/-- A record as a line; `timed` puts its time in front. -/
def line (l : Logger) (timed : Bool) (r : LogRecord) : String :=
  let time := if timed && !r.time.isZero then r.time.utc.brief ++ " " else ""
  time ++ "[" ++ r.level.name ++ "] " ++ r.message ++ l.attributeSection r ++ "\n"

end Logger
end Moniker
