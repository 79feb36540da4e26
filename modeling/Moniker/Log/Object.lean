/-
# Log records as JSON objects

A record is an object on a line of its own with its time, level, message and
attributes.  Groups are objects inside it; a group without a key has its
attributes spliced in, and an empty one is left out, as is a group of a logger
that nothing comes after.
-/

import Moniker.Data.Json
import Moniker.Log.Record

namespace Moniker

namespace LogValue

/-- The one attribute that says nothing: no key and no value. -/
def isVoid : LogAttribute → Bool
  | ("", .nothing) => true
  | _ => false

/-- Is the value a group without attributes? -/
def isEmptyGroup : LogValue → Bool
  | .group [] => true
  | _ => false

mutual

/-- A value without the empty groups in it. -/
def pruned : LogValue → LogValue
  | .group attributes => .group (prunedAll attributes)
  | v => v

/-- Attributes without the empty groups among them. -/
def prunedAll : List LogAttribute → List LogAttribute
  | [] => []
  | (key, v) :: rest =>
    let v := pruned v
    if isEmptyGroup v then prunedAll rest else (key, v) :: prunedAll rest

end

mutual

/-- A value that is no group. -/
def toValue : LogValue → Value
  | .text s => .str s
  | .int n => .int n
  | .bool b => .bool b
  | .span d => .int d.nanos
  | .time t => .str t.text
  | .texts items => .ofTexts items
  | .nothing => .null
  | .group attributes => .record (fields attributes)

/-- Attributes as the fields of an object. -/
def fields : List LogAttribute → List (String × Value)
  | [] => []
  | (key, v) :: rest =>
    if isVoid (key, v) then fields rest
    else
      match key, v with
      | "", .group attributes => fields attributes ++ fields rest
      | _, v => (key, toValue v) :: fields rest

end

end LogValue

namespace Logger

/-- Is an attribute given by a logger or with a record? -/
def saysAny : Logger → List LogAttribute → Bool
  | [], attributes => !attributes.isEmpty
  | .attach given :: rest, attributes =>
    !(LogValue.prunedAll given).isEmpty || saysAny rest attributes
  | .group _ :: rest, attributes => saysAny rest attributes

/-- The fields of the attributes under the groups a logger opens. -/
def fieldsOf : Logger → List LogAttribute → List (String × Value)
  | [], attributes => LogValue.fields attributes
  | .attach given :: rest, attributes =>
    LogValue.fields (LogValue.prunedAll given) ++ fieldsOf rest attributes
  | .group name :: rest, attributes =>
    let inner := fieldsOf rest attributes
    if name = "" then inner else if saysAny rest attributes then [(name, .record inner)] else []

/-- A record as an object. -/
def object (l : Logger) (r : LogRecord) : Value :=
  let time := if r.time.isZero then [] else [("time", Value.str r.time.text)]
  .record (time ++ [("level", .str r.level.exactName), ("msg", .str r.message)]
    ++ fieldsOf l (LogValue.prunedAll r.attributes))

/-- A record as a line that holds an object. -/
def objectLine (l : Logger) (r : LogRecord) : String := Json.compact .minimal (l.object r) ++ "\n"

end Logger
end Moniker
