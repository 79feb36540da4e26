/-
# Reports read back

A report can be read from its record.  A field that is missing, or is not what it
should be, counts as empty.
-/

import Moniker.Report.Record

namespace Moniker

/-- Reads a notice. -/
def Notice.ofValue (v : Value) : Notice :=
  { code := v.textAt "code", message := v.textAt "message", file := v.textAt "file",
    offset := v.intAt "offset" }

/-- Reads a rewritten file. -/
def RewrittenFile.ofValue (v : Value) : RewrittenFile :=
  { path := v.textAt "path", edits := v.intAt "edits" }

/-- Reads a tally. -/
def Tally.ofValue (v : Value) : Tally :=
  { files := v.intAt "files", symbols := v.intAt "symbols", isPublic := v.intAt "public",
    candidates := v.intAt "candidates", hardPrivate := v.intAt "hardPrivate",
    byReason := match v.field? "byReason" with
      | some (.record fields) => some (fields.map fun f => (f.1, (Value.record [f]).intAt f.1))
      | _ => none }

/-- Reads the tally of a report. -/
def Tally.within (v : Value) : Tally := (v.recordAt "summary" Tally.ofValue).getD {}

/-- Reads the report of a mangling pass. -/
def MangleReport.ofValue (v : Value) : MangleReport :=
  { runId := v.textAt "runId", dryRun := v.flagAt "dryRun", tally := Tally.within v,
    renames := v.listingAt "renames" ChangedName.ofValue,
    changed := v.listingAt "changed" RewrittenFile.ofValue,
    notices := v.itemsAt "diagnostics" Notice.ofValue, durationMs := v.intAt "durationMs" }

/-- Reads the report of a renaming. -/
def RenameReport.ofValue (v : Value) : RenameReport :=
  { runId := v.textAt "runId", dryRun := v.flagAt "dryRun", directives := v.intAt "directives",
    changed := v.listingAt "changed" RewrittenFile.ofValue,
    notices := v.itemsAt "diagnostics" Notice.ofValue }

/-- Reads the report of a bundling. -/
def BundleReport.ofValue (v : Value) : BundleReport :=
  { runId := v.textAt "runId", entry := v.textAt "entry", output := v.textAt "output",
    hoisted := v.listingAt "hoisted" CopiedDeclaration.ofValue,
    notices := v.itemsAt "diagnostics" Notice.ofValue, code := v.textAt "code" }

/-- Reads a classified declaration. -/
def ClassifiedName.ofValue (v : Value) : ClassifiedName :=
  { name := v.textAt "name", owner := v.textAt "owner", offset := v.intAt "offset",
    visibility := v.textAt "class", reason := v.textAt "reason", domain := v.textAt "domain" }

/-- Reads the declarations of a file. -/
def ClassifiedFile.ofValue (v : Value) : ClassifiedFile :=
  { path := v.textAt "path", symbols := v.listingAt "symbols" ClassifiedName.ofValue }

/-- Reads what became of an entry. -/
def EntryReport.ofValue (v : Value) : EntryReport :=
  { name := v.textAt "name", mangle := v.recordAt "mangle" MangleReport.ofValue,
    bundle := v.recordAt "bundle" BundleReport.ofValue, error := v.textAt "error" }

/-- Reads a check. -/
def CheckReport.ofValue (v : Value) : CheckReport :=
  { name := v.textAt "name", valid := v.flagAt "valid", message := v.textAt "message" }

/-- Reads what is known of a program. -/
def BuildInfo.ofValue (v : Value) : BuildInfo :=
  { version := v.textAt "version", commit := v.textAt "commit", buildDate := v.textAt "buildDate",
    toolchain := v.textAt "goVersion", platform := v.textAt "platform" }

/-- Reads a report of a kind; a kind that is not known is any value. -/
def Report.ofValue (kind : String) (v : Value) : Report :=
  match kind with
  | "mangle" => .mangle (.ofValue v)
  | "rename" => .rename (.ofValue v)
  | "bundle" => .bundle (.ofValue v)
  | "analyze" => .analysis { tally := Tally.within v, files := v.listingAt "files" .ofValue }
  | "run" => .entries { dryRun := v.flagAt "dryRun", entries := v.listingAt "entries" .ofValue }
  | "historyList" => .runs (v.listingAt "runs" Run.ofValue)
  | "historyShow" => .run (v.recordAt "run" Run.ofValue)
  | "historyFind" => .found (v.textAt "name") (v.listingAt "renames" ChangedName.ofValue)
  | "historyPrune" => .pruned (v.intAt "pruned") (v.intAt "keep")
  | "configValidate" => .checks (v.flagAt "valid") (v.listingAt "checks" CheckReport.ofValue)
  | "init" => .created (v.listingAt "created" Value.asText) (v.itemsAt "skipped" Value.asText)
  | "version" => .build (.ofValue v)
  | _ => .value v

end Moniker
