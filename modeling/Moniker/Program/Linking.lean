/-
# Modules and aliases

Source: `program.Program.resolveModule`, `candidatesFor`, `exportOf`, `moduleExports`,
`ExportNamed`, `ResolveAlias`, `aliasStep`, `ensureModuleMembers`.

A specifier that starts with `./`, `../` or `/` names a file: the path it spells,
completed by the first ending under which there is a file.  Any other specifier
names an ambient module.

A module's exports are its own, and for names it does not export itself those of
the modules it passes on with `export *`, searched in order; `default` is never
passed on.

An alias is followed step by step.  After `maxAliasSteps` steps, or where a step
leads out of the program, it stands for nothing.
-/

import Moniker.Program.Query

namespace Moniker

/-- Does the specifier name a file? -/
def isRelativeSpecifier (spec : String) : Bool :=
  Text.startsIn spec "./" || Text.startsIn spec "../" || Text.startsIn spec "/"
  || spec == "." || spec == ".."

/-- The endings tried in turn after a path without its extension. -/
def resolveEndings : List String :=
  ["", ".ts", ".tsx", ".d.ts", ".mts", ".js", "/index.ts", "/index.tsx", "/index.d.ts",
    "/index.js"]

/-- The endings that may stand for a TypeScript file. -/
def scriptEndings : List String := [".js", ".mjs", ".jsx"]

/-- The paths a specifier may mean, in order of preference. -/
def candidatePaths (base : String) : List String :=
  resolveEndings.map (fun e => Path.clean (base ++ e))
  ++ scriptEndings.flatMap fun ext =>
      match Text.dropEnding? base ext with
      | some stem => [stem ++ ".ts", stem ++ ".tsx", stem ++ ".d.ts"]
      | none => []

namespace Program

variable (p : Program)

/-- The module a specifier means in a file. -/
def resolve? (from_ : FileId) (spec : String) : Option ModuleId :=
  if isRelativeSpecifier spec then
    let base :=
      if Text.startsIn spec "/" then spec
      else Path.join [Path.dir (p.source.file from_).path, spec]
    (candidatePaths base).findSome? fun c => p.modulesByPath[c]?
  else p.ambientByName[spec]?

/-- The file a specifier means in a file. -/
def resolveFile? (from_ : FileId) (spec : String) : Option FileId :=
  (p.resolve? from_ spec).bind fun m =>
    let info := p.moduleInfo m
    if info.isAmbient then none else some info.file

/-- Is the module outside the program, or known by an ambient declaration only? -/
def isExternal (from_ : FileId) (spec : String) : Bool := (p.resolveFile? from_ spec).isNone

/-- Searches modules for an export. Modules in `seen` are not searched again; the
answer comes with all modules searched. -/
def exportWithin (name : String) :
    Nat → ModuleId → List ModuleId → Option SymbolId × List ModuleId
  | 0, _, seen => (none, seen)
  | fuel + 1, m, seen =>
    if seen.contains m then (none, seen)
    else
      let info := p.moduleInfo m
      match info.ownExport? name with
      | some s => (some s, m :: seen)
      | none =>
        if name == "default" then (none, m :: seen)
        else
          info.stars.foldl (fun (found, seen) spec =>
            match found with
            | some s => (some s, seen)
            | none =>
              match p.resolve? info.file spec with
              | some next => exportWithin name fuel next seen
              | none => (none, seen)) (none, m :: seen)

/-- The export of a module under a name. -/
def export? (m : ModuleId) (name : String) : Option SymbolId :=
  (p.exportWithin name (p.modules.size + 1) m []).1

/-- The exports of a module and of the modules it passes on, those in `seen`
left out. -/
def exportsWithin : Nat → ModuleId → List ModuleId → List SymbolId × List ModuleId
  | 0, _, seen => ([], seen)
  | fuel + 1, m, seen =>
    if seen.contains m then ([], seen)
    else
      let info := p.moduleInfo m
      info.stars.foldl (fun (found, seen) spec =>
        match p.resolve? info.file spec with
        | some next =>
          let (more, seen) := exportsWithin fuel next seen
          (found ++ more, seen)
        | none => (found, seen)) (info.exports.map Prod.snd, m :: seen)

/-- All exports of a module. -/
def exportsOf (m : ModuleId) : List SymbolId := (p.exportsWithin (p.modules.size + 1) m []).1

/-- All exports of a file. -/
def exportsOfFile (f : FileId) : List SymbolId := p.exportsOf ⟨f.idx⟩

/-- All exports of an ambient module. -/
def ambientExports (name : String) : List SymbolId :=
  ((p.ambientByName[name]?).map p.exportsOf).getD []

/-- Collects a module's exports by name, the first of a name winning; `default`
counts only for the module it was asked of. -/
def namespaceWithin :
    Nat → ModuleId → Bool → MemberTable × List ModuleId → MemberTable × List ModuleId
  | 0, _, _, acc => acc
  | fuel + 1, m, withDefault, (table, seen) =>
    if seen.contains m then (table, seen)
    else
      let info := p.moduleInfo m
      let own := info.exports.foldl (fun (t : MemberTable) e =>
        if (e.1 == "default" && !withDefault) || (t.find? e.1).isSome then t
        else t.add e.1 e.2) table
      info.stars.foldl (fun acc spec =>
        match p.resolve? info.file spec with
        | some next => namespaceWithin fuel next false acc
        | none => acc) (own, m :: seen)

/-- The exports of a module as the members of a namespace. -/
def namespaceTable (m : ModuleId) : MemberTable :=
  (p.namespaceWithin (p.modules.size + 1) m true ({}, [])).1

/-- What an alias that names no module stands for: a value before a type. -/
def localTarget? (sym : Symbol) : Option SymbolId :=
  sym.localScope.bind fun s =>
    p.lookupValue? s sym.importedName <|> p.lookupType? s sym.importedName

/-- The next symbol an alias leads to. -/
def aliasStep? (sym : Symbol) : Option SymbolId :=
  if sym.specifier == "" then p.localTarget? sym
  else
    (p.resolve? sym.file sym.specifier).bind fun m =>
      if sym.importedName == "*" then some (p.moduleInfo m).symbol
      else p.export? m sym.importedName

variable {p : Program}

/-- A namespace has only names that some module exports. -/
theorem exists_export_of_mem_namespaceWithin {e : String × SymbolId} (fuel : Nat) :
    ∀ m withDefault acc, e ∈ (p.namespaceWithin fuel m withDefault acc).1.entries →
      e ∈ acc.1.entries ∨ ∃ m, e ∈ (p.moduleInfo m).exports := by
  induction fuel with
  | zero => exact fun _ _ _ h => .inl h
  | succ fuel ih =>
    rintro m withDefault ⟨table, seen⟩ h
    unfold namespaceWithin at h
    split at h
    · exact .inl h
    -- Names come from the exports of the module, then from the modules it passes on.
    have hown (t : MemberTable) (es : List (String × SymbolId)) (hes : es ⊆ (p.moduleInfo m).exports)
        (h : e ∈ (es.foldl (fun (t : MemberTable) e =>
          if (e.1 == "default" && !withDefault) || (t.find? e.1).isSome then t
          else t.add e.1 e.2) t).entries) : e ∈ t.entries ∨ ∃ m, e ∈ (p.moduleInfo m).exports := by
      refine List.foldlRecOn (motive := fun t' : MemberTable => e ∈ t'.entries → _) es _ .inl
        (fun t' ih d hd h => ?_) h
      split at h
      · exact ih h
      · refine (List.mem_append.mp h).elim ih fun h => .inr ⟨m, ?_⟩
        exact List.mem_singleton.mp h ▸ hes hd
    refine List.foldlRecOn
      (motive := fun acc : MemberTable × List ModuleId => e ∈ acc.1.entries → _)
      (p.moduleInfo m).stars _ (hown _ _ fun _ h => h) (fun acc ihacc spec _ h => ?_) h
    split at h
    · exact (ih _ _ _ h).elim ihacc .inr
    · exact ihacc h

theorem exists_export_of_mem_namespaceTable {e : String × SymbolId} {m : ModuleId}
    (h : e ∈ (p.namespaceTable m).entries) : ∃ m, e ∈ (p.moduleInfo m).exports :=
  (exists_export_of_mem_namespaceWithin _ _ _ _ h).resolve_left List.not_mem_nil

end Program

/-- How many steps an alias is followed. -/
def maxAliasSteps : Nat := 64

namespace Query

variable {src : Source}

/-- Makes a module's exports the members of its symbol, once. -/
def ensureNamespace (m : ModuleId) : Query src [] Unit := do
  let sym ← read fun p => (p.moduleInfo m).symbol
  setMembersOnce sym (fun p => p.namespaceTable m)
    fun _ _ => Program.exists_export_of_mem_namespaceTable

/-- Takes one step from an alias, making the members of a whole module known. -/
def stepAlias (s : SymbolId) : Query src [] (Option SymbolId) := do
  let sym ← read fun p => p.symbol s
  if sym.specifier != "" && sym.importedName == "*" then
    match ← read fun p => p.resolve? sym.file sym.specifier with
    | some m => ensureNamespace m
    | none => pure ()
  read fun p => p.aliasStep? sym

/-- Follows an alias for at most `fuel` steps and remembers each of them. -/
def followAlias : Nat → SymbolId → Query src [] (Option SymbolId)
  | 0, _ => return none
  | fuel + 1, s => do
    let sym ← read fun p => p.symbol s
    if !sym.isAlias then return some s
    else
      let next? ←
        match sym.target with
        | some known => pure known
        | none =>
          let next? ← stepAlias s
          setTarget s next?
          pure next?
      match next? with
      | some next => followAlias fuel next
      | none => return none

/-- The declaration an alias stands for; any other symbol stands for itself. -/
def resolveAlias (s : SymbolId) : Query src [] (Option SymbolId) := followAlias maxAliasSteps s

end Query

namespace Build

/-- Puts a question to the program. -/
def ask (question : (src : Source) → Query src [] α) : Build α := fun p => (question p.source).run p

/-- The declaration an alias stands for; any other symbol stands for itself. -/
def resolveAlias (s : SymbolId) : Build (Option SymbolId) := ask fun _ => Query.resolveAlias s

end Build
end Moniker
