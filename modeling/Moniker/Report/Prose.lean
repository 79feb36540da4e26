/-
# Reports for people

Source: `formatHuman`, `formatMangleHuman`, `formatRenameHuman`, `formatBundleHuman`,
`formatAnalyzeHuman`, `formatRunHuman`, `writeDiagnostics`, `writeChangedFiles`.

Each kind of report as the lines that a terminal shows.
-/

import Moniker.Report.Basic

namespace Moniker
namespace Prose

/-- A text with blanks after it up to a width. -/
def padRight (width : Nat) (s : String) : String :=
  s ++ String.ofList (List.replicate (width - s.length) ' ')

/-- A text with blanks before it up to a width. -/
def padLeft (width : Nat) (s : String) : String :=
  String.ofList (List.replicate (width - s.length) ' ') ++ s

/-- A line of equals signs under a title. -/
def ruler : String := String.ofList (List.replicate 60 '=')

/-- Lines one after the other. -/
def lines {α : Type} (line : α → String) (items : List α) : String :=
  String.join (items.map fun x => line x ++ "\n")

/-- A list under a heading that counts it, unless it is empty. -/
def counted {α : Type} (heading : String) (line : α → String) (items : List α) : String :=
  if items.isEmpty then ""
  else "\n" ++ heading ++ " (" ++ toString items.length ++ "):\n" ++ lines line items

/-- A notice. -/
def notice (n : Notice) : String :=
  let place := if n.file = "" then "" else n.file ++ ":" ++ toString n.offset ++ " "
  "  ! " ++ place ++ "[" ++ n.code ++ "] " ++ n.message

/-- The notices of a report. -/
def notices (ns : List Notice) : String := counted "Diagnostics" notice ns

/-- A rewritten file. -/
def rewritten (f : RewrittenFile) : String :=
  "  " ++ f.path ++ " (" ++ toString f.edits ++ " edits)"

/-- The rewritten files of a report. -/
def changed (files : Option (List RewrittenFile)) (dryRun : Bool) : String :=
  counted (if dryRun then "Would rewrite" else "Rewritten") rewritten (files.getD [])

/-- A changed name with its place. -/
def rename (c : ChangedName) : String :=
  "  " ++ c.file ++ ":" ++ toString c.pos ++ "  " ++ c.oldName ++ " -> " ++ c.target ++ "  ["
  ++ c.domain ++ "]"

/-- The line that counts declarations by rule. -/
def reasons (t : Tally) : String :=
  let rs := (t.byReason.getD []).mergeSort fun a b => Text.lexLe a.1 b.1
  if rs.isEmpty then ""
  else "By reason: " ++ Text.join ", " (rs.map fun r => r.1 ++ "=" ++ toString r.2) ++ "\n"

/-- The report of a mangling pass. -/
def mangle (r : MangleReport) : String :=
  let t := r.tally
  let renames := r.renames.getD []
  "Mangle" ++ (if r.dryRun then " (dry run)" else "") ++ "\n" ++ ruler ++ "\n\n"
  ++ "Files: " ++ toString t.files ++ "  Declarations: " ++ toString t.symbols ++ "\n"
  ++ "Public: " ++ toString t.isPublic ++ "  Candidates: " ++ toString t.candidates
  ++ "  Hard-private: " ++ toString t.hardPrivate ++ "\n" ++ reasons t
  ++ (if renames.isEmpty then "\nNo declarations to rename.\n"
      else counted "Renames" rename renames)
  ++ changed r.changed r.dryRun ++ notices r.notices
  ++ "\nRun: " ++ r.runId ++ " (" ++ toString r.durationMs ++ "ms)\n"

/-- The report of a renaming. -/
def renamed (r : RenameReport) : String :=
  "Applied " ++ toString r.directives ++ " rename directive(s)"
  ++ (if r.dryRun then " (dry run)" else "") ++ "\n"
  ++ (if (r.changed.getD []).isEmpty then "No files changed.\n" else "")
  ++ changed r.changed r.dryRun ++ notices r.notices

/-- A text without line ends after it. -/
def trimLines (s : String) : String :=
  String.ofList ((s.toList.reverse.dropWhile (· = '\n')).reverse)

/-- A copied declaration of a bundle. -/
def copied (c : CopiedDeclaration) : String :=
  let name := if c.localName = c.name then c.name else c.name ++ " as " ++ c.localName
  "  " ++ padRight 30 name ++ " " ++ padRight 10 c.shape ++ " from " ++ c.origin

/-- The report of a bundling, which is the bundle itself unless that went to a file. -/
def bundle (r : BundleReport) : String :=
  if r.output = "" then trimLines r.code
  else
    "Bundled " ++ r.entry ++ " -> " ++ r.output ++ "\n"
    ++ counted "Inlined" copied (r.hoisted.getD []) ++ notices r.notices

/-- A classified declaration. -/
def classified (n : ClassifiedName) : String :=
  let name := if n.owner = "" then n.name else n.owner ++ "." ++ n.name
  "  " ++ padLeft 6 (toString n.offset) ++ "  " ++ padRight 32 name ++ " "
  ++ padRight 12 n.visibility ++ " " ++ n.reason

/-- The declarations of a file, unless there are none. -/
def classifiedFile (f : ClassifiedFile) : String :=
  let symbols := f.symbols.getD []
  if symbols.isEmpty then "" else "\n" ++ f.path ++ "\n" ++ lines classified symbols

/-- The report of an analysis. -/
def analysis (r : AnalysisReport) : String :=
  let t := r.tally
  "Declaration classification\n" ++ ruler ++ "\n"
  ++ String.join ((r.files.getD []).map classifiedFile)
  ++ "\n" ++ toString t.symbols ++ " declarations: " ++ toString t.isPublic ++ " public, "
  ++ toString t.candidates ++ " candidates, " ++ toString t.hardPrivate ++ " hard-private\n"

/-- What became of an entry. -/
def entry (e : EntryReport) : String :=
  if e.error ≠ "" then "✗ " ++ e.name ++ "\n  Error: " ++ e.error ++ "\n"
  else
    let mangled := match e.mangle with
      | some m => "  Renamed " ++ toString (m.renames.getD []).length ++ " of "
          ++ toString m.tally.symbols ++ " declarations in "
          ++ toString (m.changed.getD []).length ++ " file(s)\n"
      | none => ""
    let bundled := match e.bundle with
      | some b => "  Bundled " ++ b.entry ++ " -> " ++ b.output ++ " ("
          ++ toString (b.hoisted.getD []).length ++ " inlined)\n"
      | none => ""
    let count := ((e.mangle.map fun m => m.notices.length).getD 0)
      + ((e.bundle.map fun b => b.notices.length).getD 0)
    "✓ " ++ e.name ++ "\n" ++ mangled ++ bundled
    ++ (if count > 0 then "  " ++ toString count ++ " diagnostic(s), see --format json\n" else "")

/-- The start of a run's id. -/
def shortId (id : String) : String := Text.decode (Text.slice (Text.encode id) 0 8)

/-- A time of day on a date. -/
def moment (t : Instant) : String := t.utc.clockText " "

/-- A run in a list. -/
def listedRun (r : Run) : String :=
  shortId r.id ++ "  " ++ moment r.startedAt ++ "  " ++ padRight 6 r.kind ++ "  "
  ++ padRight 7 r.status ++ "  " ++ padRight 24 (if r.target = "" then "-" else r.target) ++ "  "
  ++ toString r.changed ++ " changed" ++ (if r.dryRun then " (dry run)" else "")

/-- Recorded runs. -/
def runs (rs : List Run) : String :=
  if rs.isEmpty then "No recorded runs." else lines listedRun rs

/-- A copied declaration of a recorded run. -/
def recordedCopy (c : CopiedDeclaration) : String :=
  "  " ++ c.name ++ " as " ++ c.localName ++ " (" ++ c.shape ++ ") from " ++ c.origin

/-- A run with its details. -/
def run (r : Run) : String :=
  "Run " ++ r.id ++ "\n" ++ ruler ++ "\n\n"
  ++ "Kind:        " ++ r.kind ++ "\n" ++ "Status:      " ++ r.status ++ "\n"
  ++ "Root:        " ++ r.root ++ "\n"
  ++ (if r.target = "" then "" else "Target:      " ++ r.target ++ "\n")
  ++ "Started:     " ++ moment r.startedAt ++ "\n" ++ "Duration:    " ++ r.duration.text ++ "\n"
  ++ "Files:       " ++ toString r.files ++ "\n" ++ "Changed:     " ++ toString r.changed ++ "\n"
  ++ "Diagnostics: " ++ toString r.diagnostics ++ "\n"
  ++ (if r.dryRun then "Dry run:     yes\n" else "")
  ++ counted "Renames" rename r.renames ++ counted "Inlined" recordedCopy r.hoisted

/-- What a name was changed to. -/
def found (name : String) (renames : List ChangedName) : String :=
  if renames.isEmpty then name ++ " was never renamed."
  else
    name ++ " was renamed " ++ toString renames.length ++ " time(s):\n"
    ++ lines (fun c => "  " ++ c.file ++ ":" ++ toString c.pos ++ " -> " ++ c.target ++ " ["
        ++ c.domain ++ "]") renames

/-- Something that was checked. -/
def check (c : CheckReport) : String :=
  (if c.valid then "✓ " else "✗ ") ++ c.name ++ ": " ++ c.message

/-- What is known of the program. -/
def build (b : BuildInfo) : String :=
  "tsmangle version " ++ b.version ++ "\nCommit: " ++ b.commit ++ "\nBuilt: " ++ b.buildDate
  ++ "\nGo: " ++ b.toolchain ++ " " ++ b.platform

end Prose

/-- A report for people, if it has a form for them. -/
def Report.prose? : Report → Option String
  | .mangle r => some (Prose.mangle r)
  | .rename r => some (Prose.renamed r)
  | .bundle r => some (Prose.bundle r)
  | .analysis r => some (Prose.analysis r)
  | .entries r => some (Text.join "\n" ((r.entries.getD []).map Prose.entry))
  | .runs rs => some (Prose.runs (rs.getD []))
  | .run r => r.map Prose.run
  | .found name renames => some (Prose.found name (renames.getD []))
  | .pruned count keep =>
    some ("Pruned " ++ toString count ++ " run(s), keeping the newest " ++ toString keep ++ ".")
  | .checks _ cs => some (Prose.lines Prose.check (cs.getD []))
  | .created made kept =>
    some (Prose.lines (fun f => "Created " ++ f) (made.getD [])
      ++ Prose.lines (fun f => "Kept existing " ++ f) kept)
  | .build info => some (Prose.build info)
  | .value _ => none

end Moniker
