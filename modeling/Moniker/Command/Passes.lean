/-
# Passes over a workspace

Source: `mangleWorkspace`, `renameCommand`, `bundleWorkspace`, `collectRewrites`,
`mangleRun`, `bundleRun`, `pipeline.ComputeMangleDirectives`, `pipeline.ApplyRenames`,
`pipeline.Bundle`.

Mangling, renaming and bundling as commands do them: with a log of what happened,
a report and a run for the history.  None of the passes writes a source file.

Each pass has a run id of its own that its log records carry.
-/

import Moniker.Bundle
import Moniker.Command.Workspace
import Moniker.Index.Locate
import Moniker.Rename.Mangle

namespace Moniker

/-- Who finds the occurrences of a name. -/
inductive Backend where
  | program
  | index (i : Index)
deriving Inhabited

namespace Backend

/-- How occurrences are found. -/
def locate : Backend → Program → Locator
  | program, p => p.locate
  | index i, p => i.locate p

/-- What a look-up leaves out. -/
def omissions : Backend → Program → String → Int → List IndexEvent
  | program, _, _, _ => []
  | index i, p, file, pos => (i.lookup p file pos).2

/-- The failure of reading an index. -/
def failure (path message : String) (cause : Option String) : Failure :=
  .coded { code := .indexMissing, message := message ++ path, cause := cause }

/-- The index at a path. An empty file is an empty index. -/
def readIndex (path : String) : Session Index := do
  let d ← Session.disk
  match d.document? path with
  | some (.index i) => return i
  | some (.plain bytes) =>
    if bytes.isEmpty then return {}
    else throw (failure path "Failed to parse SCIP index from " none)
  | some (.history _) => throw (failure path "Failed to parse SCIP index from " none)
  | none =>
    throw (failure path "SCIP index not found at "
      (some (DiskError.missing.failure "stat" path).text))

/-- The backend that the settings of a project name. -/
def ofProject (p : Project) : Session Backend := do
  if p.settings.backend = "scip" then
    let path := Index.location p.root p.settings.indexPath
    let i ← readIndex path
    p.log .debug "Loaded SCIP index"
      [("path", .text path), ("documents", .int i.documents.length), ("commit", .text i.commit)]
    return .index i
  else return .program

end Backend

/-! ## Renaming -/

/-- The attribute for a failure that there may be. -/
def failureValue : Option Failure → LogValue
  | some f => .text f.text
  | none => .nothing

/-- Logs what became of a directive. -/
def logDirective (project runs : Project) (b : Backend) (p : Program) (dropped : List Dropped)
    (d : Directive) : Session Unit := do
  for e in b.omissions p d.file d.pos do
    match e with
    | .unloaded path => project.log .debug "Skipping unloaded document" [("file", .text path)]
    | .outside path symbol =>
      project.log .debug "Occurrence outside source"
        [("file", .text path), ("symbol", .text symbol)]
  match dropped.find? fun x => x.directive == d with
  | none => pure ()
  | some x =>
    runs.log .warn "Dropping rename directive"
      [("file", .text d.file), ("pos", .int d.pos), ("name", .text d.oldName),
        ("error", failureValue x.failure)]

/-- Logs what became of a file. -/
def logOutcome (runs : Project) : FileOutcome → Session Unit
  | .missing _ => pure ()
  | .rejected d =>
    runs.log .warn "Rejecting file edits"
      [("file", .text ((d.place.map Place.file).getD "")), ("code", .text d.code.name),
        ("error", .text d.message)]
  | .applied r =>
    runs.log .debug "Applied renames" [("file", .text r.path), ("edits", .int r.edits)]

/-- Logs a renaming pass. -/
def logRenames (project : Project) (b : Backend) (p : Program) (directives : List Directive)
    (r : RenameResult) : Session Unit := do
  let runs := project.noting [("runId", .text (← Session.freshId))]
  directives.forM (logDirective project runs b p r.dropped)
  r.outcomes.forM (logOutcome runs)
  runs.log .info "Applied renames"
    [("directives", .int directives.length), ("files", .int r.files.length),
      ("diagnostics", .int r.diagnostics.length)]

namespace RenameResult

/-- The files with edits. -/
def touched (r : RenameResult) : List FileResult := r.files.filter fun f => 0 < f.edits

/-- The files with edits, for a report. -/
def rewritten (r : RenameResult) : List RewrittenFile :=
  r.touched.map fun f => { path := f.path, edits := f.edits }

/-- The new contents by path. -/
def contents (r : RenameResult) : List (String × ByteArray) :=
  r.touched.map fun f => (f.path, f.content)

end RenameResult

/-- Renames as directives ask for. -/
def renamePass (w : Workspace) (b : Backend) (directives : List Directive) :
    Session RenameResult := do
  let r := Rename.run w.contents? (b.locate w.program) directives
  logRenames w.project b w.program directives r
  return r

/-! ## Mangling -/

/-- What a mangling pass is asked for. -/
structure MangleRequest where
  /-- The files whose declarations are renamed, all if there are none. -/
  paths : List String := []
  /-- The files whose exports are public, all if there are none. -/
  publicFiles : List String := []
  options : MangleOptions
  dryRun : Bool := false
  /-- What the history calls the pass. -/
  target : String := ""
deriving Inhabited

/-- The renaming as it is recorded. -/
def Renaming.changedName (d : Renaming) : ChangedName :=
  { file := d.file, pos := d.pos, oldName := d.oldName, target := d.target,
    domain := d.domain.name }

/-- Logs an analysis of some files. -/
def logAnalysis (project : Project) (files : List FileId) (opts : SurfaceOptions) (a : Analysis) :
    Session Unit := do
  let roots := if opts.roots.isEmpty then files else opts.roots
  project.log .debug "Collected public surface"
    [("roots", .int roots.length), ("symbols", .int a.surface.symbols.size),
      ("types", .int a.surface.types.size), ("nodes", .int a.surface.nodes.size)]
  let s := a.summary
  project.log .debug "Classified declarations"
    [("files", .int s.files), ("symbols", .int s.symbols), ("public", .int s.isPublic),
      ("candidates", .int s.candidates), ("hardPrivate", .int s.hardPrivate)]

/-- Logs a plan for some files. -/
def logPlan (runs : Project) (files : List FileId) (opts : MangleOptions) (plan : ManglePlan) :
    Session Unit := do
  let a := plan.analysis
  logAnalysis runs files opts.toSurfaceOptions a
  let counts : List LogAttribute :=
    [("directives", .int plan.renamings.length), ("changed", .int plan.changed.length)]
  runs.log .debug "Allocated names"
    ([("general", .int a.general.length), ("hardPrivate", .int a.hardPrivates.length)] ++ counts)
  runs.log .info "Computed mangle directives"
    ([("files", .int files.length)] ++ counts ++ [("duration", .span ⟨0⟩)])

/-- Mangles a workspace: the report and the new contents. -/
def manglePass (w : Workspace) (req : MangleRequest) :
    Session (MangleReport × List (String × ByteArray)) := do
  let files ← w.select req.paths
  let roots ← if req.publicFiles.isEmpty then pure req.options.roots else w.select req.publicFiles
  let opts := { req.options with roots := roots }
  let b ← Backend.ofProject w.project
  let (outcome, p) := (mangle w.contents? b.locate files opts).run w.program
  let runId ← Session.freshId
  logPlan (w.project.noting [("runId", .text runId)]) files opts outcome.plan
  logRenames w.project b p outcome.plan.directives outcome.renames
  return (
    { runId := runId
      dryRun := req.dryRun
      tally := outcome.plan.analysis.summary.tally
      renames := some (outcome.plan.changed.map Renaming.changedName)
      changed := some outcome.renames.rewritten
      notices := outcome.renames.diagnostics.map Diagnostic.notice },
    outcome.renames.contents)

/-- A mangling pass as it is recorded. -/
def MangleReport.run (r : MangleReport) (root : String) (req : MangleRequest) (started : Instant) :
    Run :=
  { id := r.runId
    kind := "mangle"
    root := root
    target := req.target
    status := RunHeader.statusFor r.notices.length
    startedAt := started
    files := r.tally.files
    changed := (r.renames.getD []).length
    diagnostics := r.notices.length
    dryRun := req.dryRun
    renames := r.renames.getD [] }

/-! ## Bundling -/

/-- The copied declaration as it is recorded. -/
def Hoisted.copied (h : Hoisted) : CopiedDeclaration :=
  { name := h.name, localName := h.localName, origin := h.origin, shape := h.shape.name }

/-- Logs something that happened during bundling. -/
def logBundleEvent (runs : Project) : BundleEvent → Session Unit
  | .hoisted _ h =>
    runs.log .debug "Hoisted declaration"
      [("name", .text h.name), ("local", .text h.localName), ("from", .text h.origin),
        ("shape", .text h.shape.name)]
  | .warned d =>
    runs.log .warn "Bundle diagnostic" [("code", .text d.code.name), ("error", .text d.message)]

/-- Bundles an entry file of a workspace. -/
def bundlePass (w : Workspace) (entry : String) (strict : Bool) : Session BundleReport := do
  let runs := w.project.noting [("runId", .text (← Session.freshId))]
  let (outcome, events) := ((bundle entry strict).run w.program).1
  events.forM (logBundleEvent runs)
  match outcome with
  | .error f =>
    runs.log .error "Bundle failed" [("entry", .text entry), ("error", .text f.text)]
    throw f
  | .ok r =>
    let hoisted : LogAttribute := ("hoisted", .int r.hoisted.length)
    let diagnostics : LogAttribute := ("diagnostics", .int r.diagnostics.length)
    runs.log .debug "Bundled entry"
      [("entry", .text r.entry), hoisted, ("lines", .int r.lines), diagnostics]
    runs.log .info "Bundled entry" [("entry", .text entry), hoisted, diagnostics]
    return {
      runId := ← Session.freshId
      entry := r.entry
      hoisted := some (r.hoisted.map Hoisted.copied)
      notices := r.diagnostics.map Diagnostic.notice
      code := r.code }

/-- A bundling pass as it is recorded. -/
def BundleReport.run (r : BundleReport) (root : String) (files : Nat) (started : Instant) : Run :=
  { id := r.runId
    kind := "bundle"
    root := root
    target := r.entry
    status := RunHeader.statusFor r.notices.length
    startedAt := started
    files := files
    changed := (r.hoisted.getD []).length
    diagnostics := r.notices.length
    dryRun := r.output == ""
    hoisted := r.hoisted.getD [] }

/-- The report of a bundle whose code went to a file. -/
def BundleReport.to (r : BundleReport) (path : String) : BundleReport :=
  { r with output := path, code := "" }

end Moniker
