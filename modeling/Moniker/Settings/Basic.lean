/-
# Settings of a project

Source: `config.DefaultConfig`, `config.Config.Validate`, `config.EnvVar`,
`config.Config.MangleOptions`.

What a project can choose: which names are left alone, which directories are
passed over, how bundles and renames are made, how much history is kept and how
logs are written.

Every setting has a key, like `bundle.strict`, and an environment variable that
overrides it, like `TSMANGLE_BUNDLE_STRICT`.
-/

import Moniker.Diagnostic
import Moniker.Log.Sinks
import Moniker.Naming.Allocation

namespace Moniker

/-- The settings of a project. -/
structure Settings where
  version : Int := 0
  reservedNames : List String := []
  externalModules : List String := []
  effectRoots : Bool := false
  privateMembersInternal : Bool := false
  hardPrivate : Bool := false
  ignoreDirs : List String := []
  strictBundles : Bool := false
  /-- Who finds the places of a name: the program itself or an index. -/
  backend : String := ""
  indexPath : String := ""
  historyEnabled : Bool := false
  /-- How many runs are kept; zero keeps all. -/
  historyKeep : Int := 0
  logging : LogSettings := {}
deriving DecidableEq, Inhabited

/-- The key of a setting: its name, and the group it is in or nothing. -/
structure SettingKey where
  group : String
  name : String
deriving DecidableEq, Inhabited

namespace SettingKey

/-- The key with dots. -/
def text (k : SettingKey) : String := if k.group = "" then k.name else k.group ++ "." ++ k.name

/-- The environment variable of a key with dots. -/
def variableOf (key : String) : String :=
  "TSMANGLE_" ++ String.ofList (key.toList.map fun c => if c = '.' then '_' else Text.upperChar c)

/-- The environment variable of a key. -/
def override (k : SettingKey) : String := variableOf k.text

/-- All keys, in the order in which they are shown. -/
def all : List SettingKey :=
  [⟨"", "version"⟩, ⟨"", "reservedNames"⟩, ⟨"", "externalModules"⟩, ⟨"", "effectRoots"⟩,
    ⟨"", "privateMembersInternal"⟩, ⟨"", "hardPrivate"⟩, ⟨"", "ignoreDirs"⟩, ⟨"bundle", "strict"⟩,
    ⟨"locator", "backend"⟩, ⟨"locator", "scipIndexPath"⟩, ⟨"history", "enabled"⟩,
    ⟨"history", "keep"⟩, ⟨"logging", "format"⟩, ⟨"logging", "level"⟩, ⟨"logging", "file"⟩,
    ⟨"logging", "maxSize"⟩, ⟨"logging", "maxBackups"⟩]

end SettingKey

/-- What is wrong with a setting. -/
structure SettingsIssue where
  key : String
  message : String
deriving DecidableEq, Inhabited

namespace SettingsIssue

/-- The text of an issue. -/
def text (i : SettingsIssue) : String :=
  let tick := String.ofList [Char.ofNat 0x27]
  "config error in field " ++ tick ++ i.key ++ tick ++ ": " ++ i.message

/-- The failure of a command with such settings. -/
def failure (i : SettingsIssue) : Failure :=
  .coded { code := .configInvalid, message := i.text, cause := some i.text }

end SettingsIssue

namespace Settings

/-- The version of settings that is understood. -/
def currentVersion : Int := 1

/-- The settings of a project that chooses nothing. -/
def defaults : Settings :=
  { version := currentVersion
    effectRoots := true
    hardPrivate := true
    ignoreDirs := ["node_modules", "vendor", "dist", "build", "coverage"]
    backend := "builtin"
    indexPath := "index.scip"
    historyEnabled := true
    historyKeep := 100
    logging := { format := "human", level := "warn", maxSize := "10MB", maxBackups := 3 } }

/-- Where the state of a project is kept. -/
def stateDir (root : String) : String := Path.join [root, ".tsmangle"]

/-- The path of a project's settings file. -/
def path (root : String) : String := Path.join [stateDir root, "config.json"]

/-- The endings a settings file may have, the preferred one first. Whatever its
ending, its text is JSON. -/
def endings : List String :=
  [".json", ".toml", ".yaml", ".yml", ".properties", ".props", ".prop", ".hcl", ".tfvars",
    ".dotenv", ".env", ".ini", ""]

/-- The paths at which settings are looked for. -/
def places (root : String) : List String :=
  endings.map fun e => Path.join [stateDir root, "config" ++ e]

/-- Checks the settings; the first issue counts. -/
def check (s : Settings) : Except SettingsIssue Unit :=
  if s.version ≠ currentVersion then
    .error ⟨"version", "unsupported config version " ++ toString s.version⟩
  else if s.backend = "scip" ∧ s.indexPath = "" then
    .error ⟨"locator.scipIndexPath", "required for the scip backend"⟩
  else if s.backend ≠ "scip" ∧ s.backend ≠ "builtin" then
    .error ⟨"locator.backend", "unknown backend " ++ Text.quote s.backend⟩
  else if ¬ Text.lower s.logging.format ∈ ["human", "json"] then
    .error ⟨"logging.format", "unknown format " ++ Text.quote s.logging.format⟩
  else if ¬ Text.lower s.logging.level ∈ ["debug", "info", "warn", "warning", "error"] then
    .error ⟨"logging.level", "unknown level " ++ Text.quote s.logging.level⟩
  else if s.logging.maxBackups < 0 then .error ⟨"logging.maxBackups", "must not be negative"⟩
  else if s.historyKeep < 0 then .error ⟨"history.keep", "must not be negative"⟩
  else if "" ∈ s.reservedNames then .error ⟨"reservedNames", "empty name"⟩
  else .ok ()

/-- What the settings say about renaming. -/
def mangleOptions (s : Settings) : MangleOptions :=
  { reserved := s.reservedNames, externalModules := s.externalModules, effectRoots := s.effectRoots,
    privateMembersInternal := s.privateMembersInternal, hardPrivate := s.hardPrivate }

end Settings
end Moniker
