/-
# Runs as records

Source: `storage.Run`, `storage.RenameRecord`, `storage.HoistedRecord`.

The fields of a recorded run, in the order in which they are written.  A target,
a dry run and details are left out where there are none.  A run can be read from
its record, where a missing field counts as empty.
-/

import Moniker.Diagnostic
import Moniker.History.Basic
import Moniker.Text.Quoted

namespace Moniker

/-- A changed name as a record. -/
def ChangedName.toValue (c : ChangedName) : Value :=
  .record [("file", .str c.file), ("pos", .int c.pos), ("original", .str c.oldName),
    ("target", .str c.target), ("domain", .str c.domain)]

/-- A copied declaration as a record. -/
def CopiedDeclaration.toValue (c : CopiedDeclaration) : Value :=
  .record [("name", .str c.name), ("local", .str c.localName), ("from", .str c.origin),
    ("shape", .str c.shape)]

/-- A run as a record. -/
def Run.toValue (r : Run) : Value :=
  .record ([("id", .str r.id), ("kind", .str r.kind), ("root", .str r.root)]
    ++ Value.textField "target" r.target
    ++ [("status", .str r.status), ("startedAt", .str r.startedAt.text),
        ("durationMs", .int r.duration.nanos), ("files", .int r.files),
        ("changed", .int r.changed), ("diagnostics", .int r.diagnostics)]
    ++ Value.flagField "dryRun" r.dryRun
    ++ Value.listField "renames" (r.renames.map ChangedName.toValue)
    ++ Value.listField "hoisted" (r.hoisted.map CopiedDeclaration.toValue))

/-- A run without its details as a record. -/
def RunHeader.toValue (h : RunHeader) : Value := ({ toRunHeader := h } : Run).toValue

/-- Reads a changed name. -/
def ChangedName.ofValue (v : Value) : ChangedName :=
  { file := v.textAt "file", pos := v.intAt "pos", oldName := v.textAt "original",
    target := v.textAt "target", domain := v.textAt "domain" }

/-- Reads a copied declaration. -/
def CopiedDeclaration.ofValue (v : Value) : CopiedDeclaration :=
  { name := v.textAt "name", localName := v.textAt "local", origin := v.textAt "from",
    shape := v.textAt "shape" }

/-- Reads a run. -/
def Run.ofValue (v : Value) : Run :=
  { id := v.textAt "id", kind := v.textAt "kind", root := v.textAt "root",
    target := v.textAt "target", status := v.textAt "status",
    startedAt := (Instant.parse? (v.textAt "startedAt")).getD .zero,
    duration := ⟨v.intAt "durationMs"⟩, files := v.intAt "files", changed := v.intAt "changed",
    diagnostics := v.intAt "diagnostics", dryRun := v.flagAt "dryRun",
    renames := v.itemsAt "renames" ChangedName.ofValue,
    hoisted := v.itemsAt "hoisted" CopiedDeclaration.ofValue }

/-- The failure of a command on the history. -/
def HistoryError.failure : HistoryError → Failure
  | refused => .plain "failed to record run"
  | ambiguous start => .plain ("run prefix " ++ Text.quote start ++ " is ambiguous")

namespace History

/-- A history as a list of runs, in the order in which they were recorded. -/
def toValue (h : History) : Value := .list (h.runs.map fun r => (h.complete r).toValue)

/-- Reads a history; what could not have been recorded is left out. -/
def ofValue : Value → History
  | .list items => items.foldl (fun h v => ((h.record (Run.ofValue v)).toOption).getD h) {}
  | _ => {}

/-- The newest runs of a kind that exists. -/
def listed (h : History) (kind : String) (limit : Int) : Except Failure (List RunHeader) :=
  if kind = "" || RunHeader.kinds.contains kind then .ok (h.list kind limit)
  else .error (.of .invalidArgument ("unknown run kind " ++ Text.quote kind))

end History
end Moniker
