/-
# Reports

Source: `MangleResponseCLI`, `RenameResponseCLI`, `BundleResponseCLI`,
`AnalyzeResponseCLI`, `RunResponseCLI`, `DiagnosticCLI`.

What a command has to say when it is done.  A list that is `none` was never
made, which is told apart from an empty one where reports are written as data.
-/

import Moniker.History.Text
import Moniker.Surface.Classify

namespace Moniker

/-- A diagnostic in a report. -/
structure Notice where
  code : String := ""
  message : String := ""
  file : String := ""
  offset : Int := 0
deriving DecidableEq, Inhabited

/-- The notice of a diagnostic. -/
def Diagnostic.notice (d : Diagnostic) : Notice :=
  { code := d.code.name, message := d.message, file := (d.place.map Place.file).getD "",
    offset := (d.place.map Place.offset).getD 0 }

/-- A file that was rewritten. -/
structure RewrittenFile where
  path : String := ""
  edits : Int := 0
deriving DecidableEq, Inhabited

/-- Counts of declarations. -/
structure Tally where
  files : Int := 0
  symbols : Int := 0
  isPublic : Int := 0
  candidates : Int := 0
  hardPrivate : Int := 0
  byReason : Option (List (String × Int)) := none
deriving DecidableEq, Inhabited

/-- The tally of a summary. -/
def Summary.tally (s : Summary) : Tally :=
  { files := s.files, symbols := s.symbols, isPublic := s.isPublic, candidates := s.candidates,
    hardPrivate := s.hardPrivate, byReason := some (s.byReason.map fun c => (c.1, c.2)) }

/-- The report of a mangling pass. -/
structure MangleReport where
  runId : String := ""
  dryRun : Bool := false
  tally : Tally := {}
  renames : Option (List ChangedName) := none
  changed : Option (List RewrittenFile) := none
  notices : List Notice := []
  durationMs : Int := 0
deriving DecidableEq, Inhabited

/-- The report of a renaming. -/
structure RenameReport where
  runId : String := ""
  dryRun : Bool := false
  directives : Int := 0
  changed : Option (List RewrittenFile) := none
  notices : List Notice := []
deriving DecidableEq, Inhabited

/-- The report of a bundling; the code is there unless it went to a file. -/
structure BundleReport where
  runId : String := ""
  entry : String := ""
  output : String := ""
  hoisted : Option (List CopiedDeclaration) := none
  notices : List Notice := []
  code : String := ""
deriving DecidableEq, Inhabited

/-- A declaration and how it was classified. -/
structure ClassifiedName where
  name : String := ""
  owner : String := ""
  offset : Int := 0
  visibility : String := ""
  reason : String := ""
  domain : String := ""
deriving DecidableEq, Inhabited

/-- The declarations of a file. -/
structure ClassifiedFile where
  path : String := ""
  symbols : Option (List ClassifiedName) := none
deriving DecidableEq, Inhabited

/-- The report of an analysis. -/
structure AnalysisReport where
  tally : Tally := {}
  files : Option (List ClassifiedFile) := none
deriving DecidableEq, Inhabited

/-- What became of an entry of a manifest. -/
structure EntryReport where
  name : String := ""
  mangle : Option MangleReport := none
  bundle : Option BundleReport := none
  error : String := ""
deriving DecidableEq, Inhabited

/-- What became of the entries of a manifest. -/
structure EntriesReport where
  dryRun : Bool := false
  entries : Option (List EntryReport) := none
deriving DecidableEq, Inhabited

/-- Something that was checked. -/
structure CheckReport where
  name : String := ""
  valid : Bool := false
  message : String := ""
deriving DecidableEq, Inhabited

/-- What is known of the program itself. -/
structure BuildInfo where
  version : String := ""
  commit : String := ""
  buildDate : String := ""
  toolchain : String := ""
  platform : String := ""
deriving DecidableEq, Inhabited

/-- The version, with the start of the commit it was built from if that is known. -/
def BuildInfo.brief (b : BuildInfo) : String :=
  let commit := Text.encode b.commit
  if b.commit ≠ "unknown" && commit.size > 7 then
    b.version ++ " (" ++ Text.decode (Text.slice commit 0 7) ++ ")"
  else b.version

/-- A report of any kind. -/
inductive Report where
  | mangle (r : MangleReport)
  | rename (r : RenameReport)
  | bundle (r : BundleReport)
  | analysis (r : AnalysisReport)
  | entries (r : EntriesReport)
  | runs (runs : Option (List Run))
  | run (run : Option Run)
  | found (name : String) (renames : Option (List ChangedName))
  | pruned (count keep : Int)
  | checks (valid : Bool) (checks : Option (List CheckReport))
  | created (created : Option (List String)) (kept : List String)
  | build (info : BuildInfo)
  | value (v : Value)
deriving Inhabited

end Moniker
