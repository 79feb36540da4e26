/-
# Indexes as records

Source: `scip.LoadIndex`, `convertMetadata`, `convertDocument`.

An index as a record with the fields `metadata` and `documents`.  What is missing
counts as empty.
-/

import Moniker.Data.Value
import Moniker.Index.Basic

namespace Moniker

/-- Reads an occurrence. -/
def IndexOccurrence.ofValue (v : Value) : IndexOccurrence :=
  { range := v.itemsAt "range" Value.asInt, symbol := v.textAt "symbol", roles := v.intAt "roles" }

/-- Reads a document. -/
def IndexDocument.ofValue (v : Value) : IndexDocument :=
  { path := v.textAt "path", language := v.textAt "language",
    unit := Text.ColumnUnit.ofName (v.textAt "encoding"),
    occurrences := v.itemsAt "occurrences" IndexOccurrence.ofValue }

/-- Reads what is said about a tool. -/
def IndexTool.ofValue (v : Value) : IndexTool :=
  { name := v.textAt "name", version := v.textAt "version",
    arguments := v.itemsAt "args" Value.asText }

/-- Reads what an index says about itself. -/
def IndexOrigin.ofValue (v : Value) : IndexOrigin :=
  { root := v.textAt "root", tool := v.recordAt "tool" IndexTool.ofValue }

/-- Reads an index. -/
def Index.ofValue (v : Value) : Index :=
  { origin := v.recordAt "metadata" IndexOrigin.ofValue,
    documents := v.itemsAt "documents" IndexDocument.ofValue }

end Moniker
