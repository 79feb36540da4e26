/-
# Where settings come from

Source: `config.LoadConfig`, `config.LoadConfigFromPath`, `newViper`.

A setting is taken from the first of these that has it:

1. its environment variable, unless that is empty;
2. the settings file, a JSON object whose keys may be in any case and in which a
   setting of a group can be written with a dot or in a nested object;
3. the defaults.

A `null` in the file counts as nothing.  The environment variable of a whole
group takes away the group: its settings are then empty.

Values are read generously: a text or a truth value can stand for a number, a
number or a text for a truth value, a comma-separated text for a list.
-/

import Moniker.Data.Numeral
import Moniker.Settings.Basic

namespace Moniker

/-- The file and the environment that settings are read from. -/
structure SettingSources where
  /-- The fields of the file, with keys in lower case. -/
  file : List (String × Value) := []
  environment : List (String × String) := []
deriving Inhabited

/-- Why settings cannot be loaded. -/
inductive SettingsError where
  | unreadable
  | undecodable
deriving DecidableEq, Inhabited

/-- The failure of a command; `place` is the path of a file that was asked for. -/
def SettingsError.failure (e : SettingsError) (place : Option String) : Failure :=
  let verb := match e with
    | unreadable => "read"
    | undecodable => "decode"
  let path := (place.map fun p => " " ++ p).getD ""
  .of .configInvalid ("failed to " ++ verb ++ " config" ++ path)

namespace SettingSources

/-- Fields with keys in lower case, nested ones too. -/
def lowered (fields : List (String × Value)) : List (String × Value) :=
  fields.map fun (k, v) => (Text.lower k, match v with
    | .record inner => .record (inner.map fun (k, v) => (Text.lower k, v))
    | v => v)

/-- Reads a settings file. -/
def ofText (text : String) (environment : List (String × String)) :
    Except SettingsError SettingSources :=
  match Json.parse? text with
  | some (.record fields) => .ok { file := lowered fields, environment := environment }
  | some .null => .ok { environment := environment }
  | _ => .error .unreadable

/-- The value of an environment variable that is set to something. -/
def environment? (src : SettingSources) (name : String) : Option String :=
  ((src.environment.find? fun v => v.1 == name).map Prod.snd).filter (· ≠ "")

/-- A field of the file, `null` included. -/
def field? (src : SettingSources) (key : String) : Option Value :=
  (Value.record src.file).field? (Text.lower key)

/-- The value, unless it is `null`. -/
def present : Option Value → Option Value
  | some .null => none
  | v => v

/-- The value of a key in the file. -/
def fileValue? (src : SettingSources) (k : SettingKey) : Option Value :=
  if k.group = "" then present (src.field? k.name)
  else
    (present (src.field? k.text)).orElse fun _ =>
      (src.field? k.group).bind fun g => present (g.field? (Text.lower k.name))

end SettingSources

namespace Settings

/-- All settings with their keys. -/
def pairs (s : Settings) : List (SettingKey × Value) :=
  [(⟨"", "version"⟩, .int s.version), (⟨"", "reservedNames"⟩, .ofTexts s.reservedNames),
    (⟨"", "externalModules"⟩, .ofTexts s.externalModules),
    (⟨"", "effectRoots"⟩, .bool s.effectRoots),
    (⟨"", "privateMembersInternal"⟩, .bool s.privateMembersInternal),
    (⟨"", "hardPrivate"⟩, .bool s.hardPrivate), (⟨"", "ignoreDirs"⟩, .ofTexts s.ignoreDirs),
    (⟨"bundle", "strict"⟩, .bool s.strictBundles), (⟨"locator", "backend"⟩, .str s.backend),
    (⟨"locator", "scipIndexPath"⟩, .str s.indexPath),
    (⟨"history", "enabled"⟩, .bool s.historyEnabled), (⟨"history", "keep"⟩, .int s.historyKeep),
    (⟨"logging", "format"⟩, .str s.logging.format), (⟨"logging", "level"⟩, .str s.logging.level),
    (⟨"logging", "file"⟩, .str s.logging.file), (⟨"logging", "maxSize"⟩, .str s.logging.maxSize),
    (⟨"logging", "maxBackups"⟩, .int s.logging.maxBackups)]

/-- The default of a key. -/
def default? (k : SettingKey) : Option Value :=
  (defaults.pairs.find? fun p => p.1 == k).map Prod.snd

/-- The value of a key from the first source that has it. -/
def chosen? (src : SettingSources) (k : SettingKey) : Option Value :=
  match src.environment? k.override with
  | some s => some (.str s)
  | none =>
    if k.group ≠ "" && (src.environment? (SettingKey.variableOf k.group)).isSome then none
    else (src.fileValue? k).orElse fun _ => default? k

/-- The value of a key. Something other than an object in the place of a group
cannot be decoded, and a `null` there leaves the defaults. -/
def effective (src : SettingSources) (k : SettingKey) : Except SettingsError (Option Value) :=
  if k.group = "" then .ok (chosen? src k)
  else
    match src.field? k.group with
    | none => .ok (chosen? src k)
    | some (.record _) => .ok (chosen? src k)
    | some .null =>
      if (src.environment? (SettingKey.variableOf k.group)).isSome then .error .undecodable
      else .ok (default? k)
    | some _ => .error .undecodable

/-- Up to here whole numbers are exact in floating point. -/
def exactBound : Nat := 9007199254740992

/-- A whole number, read generously. -/
def wholeOf? : Value → Option Int
  | .int n => some (Numeral.held n)
  | .num x => some (Numeral.word x)
  | .bool b => some (if b then 1 else 0)
  | .str s => if s = "" then some 0 else Numeral.whole? s
  | _ => none

/-- The truth value of a word. -/
def truthOf? (s : String) : Option Bool :=
  if s ∈ ["1", "t", "T", "TRUE", "true", "True"] then some true
  else if s ∈ ["", "0", "f", "F", "FALSE", "false", "False"] then some false
  else none

/-- A truth value, read generously. -/
def boolOf? : Value → Option Bool
  | .bool b => some b
  | .int n => some (n ≠ 0)
  | .num x => some (x != 0)
  | .str s => truthOf? s
  | _ => none

/-- A text, read generously. -/
def textOf? : Value → Option String
  | .str s => some s
  | .bool b => some (if b then "1" else "0")
  | .int n =>
    some (if n.natAbs ≤ exactBound then toString n else Decimal.fixed (Float.ofInt n))
  | .num x => some (Decimal.fixed x)
  | _ => none

/-- A list of texts, read generously. -/
def textsOf? : Value → Option (List String)
  | .str s => some (if s = "" then [] else Text.split ',' s)
  | .list items => items.mapM fun
    | .null => some ""
    | v => textOf? v
  | .record [] => some []
  | v => (textOf? v).map fun s => [s]

/-- The value of a key as something, which it is nothing of where there is none. -/
def read {α : Type} [Inhabited α] (src : SettingSources) (decode : Value → Option α)
    (group name : String) : Except SettingsError α := do
  match ← effective src ⟨group, name⟩ with
  | none => return default
  | some v =>
    match decode v with
    | some a => return a
    | none => throw .undecodable

/-- Reads all settings. -/
def ofSources (src : SettingSources) : Except SettingsError Settings := do
  return {
    version := ← read src wholeOf? "" "version"
    reservedNames := ← read src textsOf? "" "reservedNames"
    externalModules := ← read src textsOf? "" "externalModules"
    effectRoots := ← read src boolOf? "" "effectRoots"
    privateMembersInternal := ← read src boolOf? "" "privateMembersInternal"
    hardPrivate := ← read src boolOf? "" "hardPrivate"
    ignoreDirs := ← read src textsOf? "" "ignoreDirs"
    strictBundles := ← read src boolOf? "bundle" "strict"
    backend := ← read src textOf? "locator" "backend"
    indexPath := ← read src textOf? "locator" "scipIndexPath"
    historyEnabled := ← read src boolOf? "history" "enabled"
    historyKeep := ← read src wholeOf? "history" "keep"
    logging := {
      format := ← read src textOf? "logging" "format"
      level := ← read src textOf? "logging" "level"
      file := ← read src textOf? "logging" "file"
      maxSize := ← read src textOf? "logging" "maxSize"
      maxBackups := ← read src wholeOf? "logging" "maxBackups" } }

/-- Loads the settings of a project with or without a settings file. -/
def load (text : Option String) (environment : List (String × String)) :
    Except SettingsError Settings := do
  match text with
  | some t => ofSources (← SettingSources.ofText t environment)
  | none => ofSources { environment := environment }

end Settings
end Moniker
