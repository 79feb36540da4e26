/-
# Documents as bytes

How documents are kept in files.  A history is a list of runs and an index a
record, both as JSON; everything else is kept as it is.

The trees of a project's sources come from a parser in another program, which
leaves them in a file of the project's state directory.
-/

import Moniker.Command.Session
import Moniker.Data.Json
import Moniker.Index.Record
import Moniker.Syntax.Record

namespace Moniker
namespace Document

/-- The JSON value in a file, or nothing. -/
def valueIn (bytes : ByteArray) : Value := (Json.parse? (Text.decode bytes)).getD .null

/-- The document that a file at a path holds. -/
def ofBytes (path : String) (bytes : ByteArray) : Document :=
  if Path.base path = "history.db" then .history (History.ofValue (valueIn bytes))
  else if Path.extension path = ".scip" then .index (Index.ofValue (valueIn bytes))
  else .plain bytes

/-- The bytes of a document that a command can write; an index is never written. -/
def toBytes? : Document → Option ByteArray
  | .plain bytes => some bytes
  | .history h => some (Text.encode (Json.compact .minimal h.toValue))
  | .index _ => none

end Document

namespace Disk

/-- The file that the trees of a project's sources are in. -/
def treesPath (root : String) : String := Path.join [Settings.stateDir root, "trees.json"]

/-- The trees of a project's sources. -/
def trees (d : Disk) (root : String) : TreeBook :=
  match d.read (treesPath root) with
  | .ok bytes => TreeBook.ofValue (Document.valueIn bytes)
  | .error _ => []

end Disk
end Moniker
