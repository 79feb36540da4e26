/-
# Doing tasks

Source: `mangleCommand`, `renameCommand`, `bundleCommand`, `runCommand`, `runEntry`,
`analyzeCommand`, `initCommand`, `configShowCommand`, `configValidateCommand`,
`historyListCommand`.

Each task opens the project, does its work and ends in a report.  The exit status
is zero unless

| status | where |
| --- | --- |
| 1 | the command failed, an entry failed, or a check did |
| 2 | a pass left something undone that its report tells |
-/

import Moniker.Command.Passes
import Moniker.Command.Task
import Moniker.Manifest.Text
import Moniker.Rename.Batch
import Moniker.Report.Render
import Moniker.Settings.Show

namespace Moniker

/-- What a command has to say. -/
inductive Reply where
  | report (r : Report) (status : Nat)
  | text (s : String)
deriving Inhabited

namespace Reply

/-- The reply with a report that tells of no trouble. -/
def fine (r : Report) : Reply := .report r 0

/-- The reply of a pass with notices. -/
def ofPass (r : Report) (notices : List Notice) : Reply :=
  .report r (if notices.isEmpty then 0 else 2)

end Reply

namespace Task

/-! ## Analysis -/

/-- The entries of an analysis as they are reported, only those of a class if one is
named. -/
def classified (p : Program) (only : String) (a : FileAnalysis) : ClassifiedFile :=
  let shown := a.entries.filter fun e => only = "" || e.visibility.name = only
  let row (e : Entry) : ClassifiedName :=
    { name := (p.symbol e.symbol).name
      owner := ((p.symbol e.symbol).owner.map fun o => (p.symbol o).name).getD ""
      offset := p.source.start e.decl
      visibility := e.visibility.name
      reason := e.reason.name
      domain := e.domain.name }
  { path := (p.source.file a.file).path, symbols := some (shown.map row) }

/-- The classes that can be asked for. -/
def classes : List String :=
  "" :: [Visibility.public_, Visibility.private_, Visibility.hardPrivate].map Visibility.name

/-- Shows how declarations are classified. -/
def doAnalyze (project : Project) (paths publicFiles : List String) (only : String) :
    Session Reply := do
  let paths ← paths.mapM project.resolve
  let publicFiles ← publicFiles.mapM project.resolve
  if !classes.contains only then
    throw (.of .invalidArgument ("unknown class " ++ Text.quote only))
  let w ← Workspace.load project
  let files ← w.select paths
  let roots ← if publicFiles.isEmpty then pure [] else w.select publicFiles
  let opts := { project.settings.mangleOptions.toSurfaceOptions with roots := roots }
  let (a, p) := (Moniker.analyze files opts).run w.program
  logAnalysis project files opts a
  return .fine (.analysis
    { tally := a.summary.tally, files := some (a.files.map (classified p only)) })

/-! ## Mangling -/

/-- The options of mangling: the settings, with what the task adds and overrides. -/
def MangleTask.options (t : MangleTask) (s : Settings) : MangleOptions :=
  let base := s.mangleOptions
  { base with
    reserved := base.reserved ++ t.reserved
    externalModules := base.externalModules ++ t.externalModules
    effectRoots := t.effectRoots.getD base.effectRoots
    privateMembersInternal := t.privateMembersInternal.getD base.privateMembersInternal
    hardPrivate := t.hardPrivate.getD base.hardPrivate }

/-- Mangles a project. -/
def doMangle (project : Project) (t : MangleTask) : Session Reply := do
  let req : MangleRequest :=
    { paths := ← t.paths.mapM project.resolve
      publicFiles := ← t.publicFiles.mapM project.resolve
      options := MangleTask.options t project.settings
      dryRun := t.dryRun
      target := Text.join "," t.paths }
  let started ← Session.now
  let w ← Workspace.load project
  let (r, contents) ← manglePass w req
  if !t.dryRun then Workspace.writeAll project contents
  project.record (r.run project.root req started)
  return .ofPass (.mangle r) r.notices

/-! ## Renaming -/

/-- The directives that a renaming starts from. -/
def directivesOf (project : Project) : RenameSource → Session (List Directive)
  | .batch path => do
    match (← Session.disk).read (← Session.absolute path) with
    | .ok bytes => Session.ofExcept (Batch.parse (Text.decode bytes))
    | .error e =>
      let operation := if e = .isDirectory then "read" else "open"
      throw (.coded
        { code := .fileNotFound, message := "cannot read directives",
          cause := some (e.failure operation path).text })
  | .place file offset name => do
    match (Numeral.plainWhole? offset).filter (0 ≤ ·) with
    | none => throw (.of .invalidArgument ("invalid offset " ++ Text.quote offset))
    | some pos =>
      return [{ file := ← project.resolve file, pos := pos,
                oldName := "", target := name }]

/-- A directive with the name it replaces, which is that of the symbol it points at
unless it tells. -/
def completed (p : Program) (d : Directive) : Except Failure Directive :=
  if d.oldName ≠ "" then .ok d
  else (p.symbolAt d.file d.pos).map fun s => { d with oldName := (p.symbol s).name }

/-- Checks that the new name can replace the old one. -/
def checkTarget (d : Directive) : Except Failure Unit :=
  if isValidTarget d.oldName d.target then .ok ()
  else
    .error (.coded
      { code := .invalidArgument,
        message := Text.quote d.target ++ " cannot replace " ++ d.oldName,
        place := some ⟨d.file, d.pos⟩ })

/-- A renaming as it is recorded. -/
def renameRun (root id : String) (started : Instant) (files : Nat) (dryRun : Bool)
    (directives : List Directive) (notices : List Notice) : Run :=
  { id := id
    kind := "rename"
    root := root
    target := match directives with
      | [d] => d.file ++ ":" ++ toString d.pos
      | _ => ""
    status := RunHeader.statusFor notices.length
    startedAt := started
    files := files
    changed := directives.length
    diagnostics := notices.length
    dryRun := dryRun
    renames := directives.map fun d =>
      { file := d.file, pos := d.pos, oldName := d.oldName, target := d.target,
        domain := "explicit" } }

/-- Renames symbols of a project. -/
def doRename (project : Project) (source : RenameSource) (dryRun : Bool) : Session Reply := do
  let asked ← directivesOf project source
  let started ← Session.now
  let w ← Workspace.load project
  let directives ← asked.mapM fun d => Session.ofExcept (completed w.program d)
  directives.forM fun d => Session.ofExcept (checkTarget d)
  let b ← Backend.ofProject project
  let id ← Session.freshId
  let result ← renamePass w b directives
  if !dryRun then Workspace.writeAll project result.contents
  let notices := result.diagnostics.map Diagnostic.notice
  project.record (renameRun project.root id started w.files.length dryRun directives notices)
  return .ofPass (.rename
    { runId := id, dryRun := dryRun, directives := directives.length,
      changed := some result.rewritten, notices := notices }) notices

/-! ## Bundling -/

/-- Bundles a file of a project. -/
def doBundle (project : Project) (entry out : String) (strict : Option Bool) :
    Session Reply := do
  let out ← if out = "" then pure "" else project.resolve out
  let entry ← project.resolve entry
  let started ← Session.now
  let w ← Workspace.load project
  match ← Session.attempt (bundlePass w entry (strict.getD project.settings.strictBundles)) with
  | .error f =>
    project.record
      { id := ← Session.freshId, kind := "bundle", root := project.root, target := entry,
        status := "failed", startedAt := started, files := w.files.length }
    throw f
  | .ok r =>
    let written ←
      if out = "" then pure r
      else do
        Workspace.write project out (Text.encode r.code)
        pure (r.to out)
    project.record (written.run project.root w.files.length started)
    return .ofPass (.bundle written) written.notices

/-! ## Entries of the manifest -/

/-- The manifest of a project, if it has one. -/
def manifestAt (root : String) : Session (Option Manifest) := do
  match (← Session.disk).read (Path.join [root, ManifestError.fileName]) with
  | .ok bytes => return some (← Session.ofExcept (Manifest.load (Text.decode bytes)))
  | .error _ => return none

/-- The entries of some names, or all of them where none are given. -/
def chosen (m : Manifest) (names : List String) : Except Failure (List ManifestEntry) :=
  if names.isEmpty then .ok m.entries
  else names.mapM fun name =>
    match m.entry? name with
    | some e => .ok e
    | none =>
      .error (.of .invalidArgument
        (ManifestError.fileName ++ " declares no entry " ++ Text.quote name))

/-- What an entry asks of mangling. -/
def entryRequest (s : Settings) (m : Manifest) (e : ManifestEntry) (dryRun : Bool) :
    MangleRequest :=
  let base := s.mangleOptions
  { publicFiles := e.publicFiles.map fun p => Path.join [e.cleanRoot, p]
    options := { base with
      reserved := base.reserved ++ m.reservedFor e
      externalModules := base.externalModules ++ m.externalFor e }
    dryRun := dryRun
    target := e.name }

/-- Contents where those of `news` count before those of `olds`. -/
def overlaid (olds news : List (String × ByteArray)) : List (String × ByteArray) :=
  (olds.filter fun o => !news.any fun n => n.1 == o.1) ++ news

/-- What has come of an entry so far: its report, the runs to record and the files to
write. -/
structure EntryProgress where
  report : EntryReport
  runs : List Run := []
  contents : List (String × ByteArray) := []
deriving Inhabited

/-- Mangles the sources of an entry. -/
def mangleEntry (project : Project) (m : Manifest) (e : ManifestEntry) (dryRun : Bool) :
    Session (Workspace × EntryProgress) := do
  let started ← Session.now
  let scanned ← Workspace.scan (e.dir project.root) project.settings.ignoreDirs
  let w ← Workspace.loadFiles project (scanned.map fun p => Path.join [e.cleanRoot, p])
  let req := entryRequest project.settings m e dryRun
  let (r, contents) ← manglePass w req
  return (w,
    { report := { name := e.name, mangle := some r }
      runs := [r.run project.root req started]
      contents := contents })

/-- Bundles the mangled sources of an entry, if it has a file to bundle. -/
def bundleEntry (project : Project) (e : ManifestEntry) (dryRun : Bool) (w : Workspace)
    (done : EntryProgress) : Session EntryProgress := do
  if e.bundle = "" then return done
  else
    let started ← Session.now
    let mangled ← Workspace.ofSources project (overlaid w.sources done.contents)
    let r ← bundlePass mangled (Path.join [e.cleanRoot, e.bundle])
      (project.settings.strictBundles || e.strict)
    let out := Path.join [e.cleanRoot, e.output]
    let hasOutput := e.output ≠ ""
    let written := if hasOutput then r.to out else r
    let run := { written.run project.root mangled.files.length started with
      dryRun := dryRun || !hasOutput }
    return {
      report := { done.report with bundle := some written }
      runs := done.runs ++ [run]
      contents :=
        if hasOutput then overlaid done.contents [(out, Text.encode r.code)] else done.contents }

/-- Does one entry: its report, and its runs if it did not fail. An entry that fails
writes nothing, or stops at the file that cannot be written. -/
def doEntry (project : Project) (m : Manifest) (e : ManifestEntry) (dryRun : Bool) :
    Session (EntryReport × List Run) := do
  let noted := project.noting [("entry", .text e.name)]
  let failed (report : EntryReport) (f : Failure) : Session (EntryReport × List Run) := do
    project.log .error "Entry failed" [("entry", .text e.name), ("error", .text f.text)]
    return ({ report with error := f.text }, [])
  match ← Session.attempt (mangleEntry noted m e dryRun) with
  | .error f => failed { name := e.name } f
  | .ok (w, mangled) =>
    match ← Session.attempt (bundleEntry noted e dryRun w mangled) with
    | .error f => failed mangled.report f
    | .ok done =>
      let writing := if dryRun then pure () else Workspace.writeAll noted done.contents
      match ← Session.attempt writing with
      | .error f => failed done.report f
      | .ok () => return (done.report, done.runs)

/-- The failure where a project has no manifest to do the entries of. -/
def noManifest (root : String) : Failure :=
  let tick := String.ofList [Char.ofNat 0x27]
  .of .fileNotFound ("no " ++ ManifestError.fileName ++ " in " ++ root ++ "; run " ++ tick
    ++ "tsmangle init" ++ tick)

/-- Does the entries of a manifest and then records their runs. -/
def doRun (project : Project) (names : List String) (dryRun : Bool) : Session Reply := do
  match ← manifestAt project.root with
  | none => throw (noManifest project.root)
  | some m =>
    let entries ← Session.ofExcept (chosen m names)
    let results ← entries.mapM fun e => doEntry project m e dryRun
    (results.flatMap Prod.snd).forM project.record
    let reports := results.map Prod.fst
    return .report (.entries { dryRun := dryRun, entries := some reports })
      (if reports.any fun r => r.error ≠ "" then 1 else 0)

/-! ## Settings -/

/-- Writes a file unless there is one, and tells which it was. -/
def create (force : Bool) (path text : String) : Session Bool := do
  if (← Session.disk).has path && !force then return false
  else
    Session.onDisk fun d => d.put path (.plain (Text.encode text))
    return true

/-- Writes settings and a manifest to start from. -/
def doInit (root : String) (force : Bool) : Session Reply := do
  if !(← Session.disk).isDir root then
    throw (.of .fileNotFound ("project root " ++ root ++ " is not a directory"))
  let files := [(Settings.path root, Settings.defaults.save),
    (Path.join [root, ManifestError.fileName], Manifest.starter.toText)]
  let made ← files.mapM fun (path, text) => do return (path, ← create force path text)
  return .fine (.created (some ((made.filter Prod.snd).map Prod.fst))
    ((made.filter fun f => !f.2).map Prod.fst))

/-- Shows the settings of a project. -/
def doConfigShow (root format : String) (onlyChanged : Bool) : Session Reply := do
  let s ← Project.settingsAt root
  let path := Settings.path root
  let shown := if (← Session.disk).has path then some path else none
  let overridden := Settings.overrides (← read).environment
  if format = "human" then return .text (s.overview shown overridden onlyChanged)
  else return .fine (.value (s.overviewValue shown overridden onlyChanged))

/-- The report of a check that ended well with a message or badly with a failure. -/
def checkReport (name : String) : Except Failure String → CheckReport
  | .ok message => { name := name, valid := true, message := message }
  | .error f => { name := name, valid := false, message := f.text }

/-- Checks the settings and the manifest of a project. -/
def doConfigValidate (root : String) : Session Reply := do
  let settings ← Session.attempt do
    match (← Project.settingsAt root).check with
    | .ok () => return "effective configuration is valid"
    | .error i => throw i.failure
  let manifest ← Session.attempt do
    match ← manifestAt root with
    | none => return "not present"
    | some m => return toString m.entries.length ++ " entries"
  let checks := [checkReport "config" settings, checkReport ManifestError.fileName manifest]
  let valid := checks.all CheckReport.valid
  return .report (.checks valid (some checks)) (if valid then 0 else 1)

/-- The environment variables that are listened to, one a line. -/
def variablesText : String :=
  let line (v : String × String × String) : String :=
    "  " ++ Prose.padRight 36 v.1 ++ " " ++ v.2.1 ++ " (" ++ v.2.2 ++ ")\n"
  "Supported tsmangle Environment Variables\n" ++ Settings.rule '─' 50 ++ "\n\n"
    ++ String.join (Settings.variableTable.map line)
    ++ "\nLists are comma separated. Example usage:\n"
    ++ "  TSMANGLE_BUNDLE_STRICT=true tsmangle bundle src/index.ts\n"
    ++ "  TSMANGLE_LOGGING_LEVEL=debug tsmangle mangle --dry-run\n"

/-! ## History -/

/-- Shows a recorded run. -/
def doHistoryShow (h : History) (id : String) : Session Reply :=
  match h.get id with
  | .error e => throw e.failure
  | .ok none => throw (.plain ("no run matches " ++ Text.quote id))
  | .ok (some found) => return .fine (.run (some found))

/-- Drops the oldest runs. Where no number is given the settings tell it, and there
zero keeps all. -/
def doHistoryPrune (project : Project) (h : History) (keep? : Option Int) : Session Reply := do
  let keep := keep?.getD project.settings.historyKeep
  if keep?.isNone && keep = 0 then return .fine (.pruned 0 0)
  else if keep < 0 then throw (.of .invalidArgument "--keep must not be negative")
  else
    let kept := h.prune keep
    project.saveHistory kept
    return .fine (.pruned (h.runs.length - kept.runs.length : Nat) keep)

/-! ## All tasks -/

/-- Does a task. -/
def perform (a : Assignment) : Session Reply := do
  let project : Session Project := Project.find a.common
  let root : Session String := Session.absolute a.common.root
  match a.task with
  | .analyze paths publicFiles only => doAnalyze (← project) paths publicFiles only
  | .mangle t => doMangle (← project) t
  | .rename source dryRun => doRename (← project) source dryRun
  | .bundle entry out strict => doBundle (← project) entry out strict
  | .run entries dryRun => doRun (← project) entries dryRun
  | .init force => doInit (← root) force
  | .configShow onlyChanged => doConfigShow (← root) a.format onlyChanged
  | .configValidate => doConfigValidate (← root)
  | .configEnv => return .text variablesText
  | .historyList kind limit =>
    let h ← (← project).history
    return .fine (.runs (some ((← Session.ofExcept (h.listed kind limit)).map fun r =>
      { toRunHeader := r })))
  | .historyShow id => doHistoryShow (← (← project).history) id
  | .historyFind name =>
    let h ← (← project).history
    return .fine (.found name (some (h.find name)))
  | .historyPrune keep =>
    let p ← project
    doHistoryPrune p (← p.history) keep
  | .version => return .fine (.build (← read).build)

end Task

/-! ## Running a command line -/

/-- What a command line leads to. -/
structure Outcome where
  status : Nat := 0
  /-- Standard output. -/
  output : String := ""
  /-- Standard error. -/
  errors : String := ""
deriving DecidableEq, Inhabited

namespace Outcome

/-- A reply in a format, after what was logged to the console. -/
def ofReply (console format : String) : Except Failure Reply → Outcome
  | .error f => { status := 1, errors := console ++ f.report }
  | .ok (.text s) => { output := s, errors := console }
  | .ok (.report r status) =>
    match r.render format with
    | .ok text => { status := status, output := text ++ "\n", errors := console }
    | .error f =>
      { status := 1, errors := console ++ "Error formatting output: " ++ f.text ++ "\n" }

end Outcome

/-- Does an assignment in a world. -/
def Assignment.run (a : Assignment) (around : Surroundings) (w : World) : Outcome × World :=
  let (result, s) := ((Task.perform a).run around).run.run { world := w }
  let entries := s.log.toList
  match s.sink with
  | none => (.ofReply "" a.format result, s.world)
  | some k =>
    (.ofReply (k.settings.console k.asked entries) a.format result,
      { s.world with disk := k.write entries s.world.disk })

/-- How a command is called, and its commands. -/
def Command.usage (c : Command) : String :=
  let names := (c.children.filter Command.isOffered).map fun k => "  " ++ k.word ++ "\n"
  let more := if names.isEmpty then "" else "\nAvailable Commands:\n" ++ String.join names
  "Usage:\n  " ++ c.title ++ " [flags]\n" ++ more

/-- Runs a command line. -/
def runLine (around : Surroundings) (words : List String) (w : World) : Outcome × World :=
  match Command.read words with
  | .error e => ({ status := 1, errors := e.report }, w)
  | .ok (.help c) => ({ output := c.usage }, w)
  | .ok .version => ({ output := "tsmangle version " ++ around.build.version ++ "\n" }, w)
  | .ok (.perform c flags arguments) =>
    match Assignment.of? c flags arguments with
    | some a => a.run around w
    | none => ({ output := c.usage }, w)

end Moniker
