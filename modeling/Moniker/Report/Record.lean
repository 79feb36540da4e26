/-
# Reports as records

Source: `formatJSON`, `diagnosticsCLI`.

The fields of each report, in the order in which they are written.
-/

import Moniker.Report.Basic
import Moniker.Settings.Show

namespace Moniker

/-- A list that may not have been made. -/
def Value.ofListing (items : Option (List Value)) : Value :=
  match items with
  | some xs => .list xs
  | none => .null

/-- A number that is left out where it is zero. -/
def Value.intField (key : String) (n : Int) : List (String × Value) :=
  if n = 0 then [] else [(key, .int n)]

/-- A notice as a record. -/
def Notice.toValue (n : Notice) : Value :=
  .record ([("code", .str n.code), ("message", .str n.message)] ++ Value.textField "file" n.file
    ++ Value.intField "offset" n.offset)

/-- A rewritten file as a record. -/
def RewrittenFile.toValue (f : RewrittenFile) : Value :=
  .record [("path", .str f.path), ("edits", .int f.edits)]

/-- A tally as a record. -/
def Tally.toValue (t : Tally) : Value :=
  let reasons := match t.byReason with
    | some rs => .record (Value.sortFields (rs.map fun r => (r.1, .int r.2)))
    | none => .null
  .record [("files", .int t.files), ("symbols", .int t.symbols), ("public", .int t.isPublic),
    ("candidates", .int t.candidates), ("hardPrivate", .int t.hardPrivate), ("byReason", reasons)]

/-- The field of the notices. -/
def Notice.field (notices : List Notice) : List (String × Value) :=
  Value.listField "diagnostics" (notices.map Notice.toValue)

/-- A listing of changed names. -/
def ChangedName.listing (renames : Option (List ChangedName)) : Value :=
  .ofListing (renames.map fun rs => rs.map ChangedName.toValue)

/-- A listing of rewritten files. -/
def RewrittenFile.listing (files : Option (List RewrittenFile)) : Value :=
  .ofListing (files.map fun fs => fs.map RewrittenFile.toValue)

/-- The report of a mangling pass as a record. -/
def MangleReport.toValue (r : MangleReport) : Value :=
  .record ([("runId", .str r.runId), ("dryRun", .bool r.dryRun), ("summary", r.tally.toValue),
    ("renames", ChangedName.listing r.renames), ("changed", RewrittenFile.listing r.changed)]
    ++ Notice.field r.notices ++ [("durationMs", .int r.durationMs)])

/-- The report of a renaming as a record. -/
def RenameReport.toValue (r : RenameReport) : Value :=
  .record ([("runId", .str r.runId), ("dryRun", .bool r.dryRun), ("directives", .int r.directives),
    ("changed", RewrittenFile.listing r.changed)] ++ Notice.field r.notices)

/-- The report of a bundling as a record. -/
def BundleReport.toValue (r : BundleReport) : Value :=
  .record ([("runId", .str r.runId), ("entry", .str r.entry)] ++ Value.textField "output" r.output
    ++ [("hoisted", .ofListing (r.hoisted.map fun hs => hs.map CopiedDeclaration.toValue))]
    ++ Notice.field r.notices ++ Value.textField "code" r.code)

/-- A classified declaration as a record. -/
def ClassifiedName.toValue (n : ClassifiedName) : Value :=
  .record ([("name", .str n.name)] ++ Value.textField "owner" n.owner
    ++ [("offset", .int n.offset), ("class", .str n.visibility), ("reason", .str n.reason),
        ("domain", .str n.domain)])

/-- The declarations of a file as a record. -/
def ClassifiedFile.toValue (f : ClassifiedFile) : Value :=
  .record [("path", .str f.path),
    ("symbols", .ofListing (f.symbols.map fun ss => ss.map ClassifiedName.toValue))]

/-- The report of an analysis as a record. -/
def AnalysisReport.toValue (r : AnalysisReport) : Value :=
  .record [("summary", r.tally.toValue),
    ("files", .ofListing (r.files.map fun fs => fs.map ClassifiedFile.toValue))]

/-- What became of an entry as a record. -/
def EntryReport.toValue (e : EntryReport) : Value :=
  .record ([("name", .str e.name)]
    ++ (e.mangle.toList.map fun r => ("mangle", r.toValue))
    ++ (e.bundle.toList.map fun r => ("bundle", r.toValue))
    ++ Value.textField "error" e.error)

/-- A check as a record. -/
def CheckReport.toValue (c : CheckReport) : Value :=
  .record [("name", .str c.name), ("valid", .bool c.valid), ("message", .str c.message)]

/-- What is known of the program as a record. -/
def BuildInfo.toValue (b : BuildInfo) : Value :=
  .record [("version", .str b.version), ("commit", .str b.commit), ("buildDate", .str b.buildDate),
    ("goVersion", .str b.toolchain), ("platform", .str b.platform)]

/-- A report as a record. -/
def Report.toValue : Report → Value
  | .mangle r => r.toValue
  | .rename r => r.toValue
  | .bundle r => r.toValue
  | .analysis r => r.toValue
  | .entries r => .record [("dryRun", .bool r.dryRun),
      ("entries", .ofListing (r.entries.map fun es => es.map EntryReport.toValue))]
  | .runs listed => .record [("runs", .ofListing (listed.map fun rs => rs.map Run.toValue))]
  | .run shown => .record [("run", (shown.map Run.toValue).getD .null)]
  | .found name renames => .record [("name", .str name), ("renames", ChangedName.listing renames)]
  | .pruned count keep => .record [("pruned", .int count), ("keep", .int keep)]
  | .checks valid listed => .record [("valid", .bool valid),
      ("checks", .ofListing (listed.map fun cs => cs.map CheckReport.toValue))]
  | .created made kept => .record ([("created", .ofListing (made.map fun cs => cs.map .str))]
      ++ Value.listField "skipped" (kept.map .str))
  | .build info => info.toValue
  | .value v => v

end Moniker
