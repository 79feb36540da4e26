/-
# Settings as they are saved and shown

Source: `config.Config.Save`, `flattenConfig`, `computeDiff`, `envOverrides`,
`formatConfigHuman`, `envVars`.

Settings are saved as a JSON object with an object for each group.  A log file,
its size and its backups are left out where they are empty or zero.

They are shown as a list of keys and values, or as those that differ from the
defaults.
-/

import Moniker.Settings.Load

namespace Moniker

namespace Value

mutual

/-- Are two values the same? Numbers are compared as floating-point numbers, and
the order of fields does not matter. -/
def same : Value → Value → Bool
  | .null, .null => true
  | .bool a, .bool b => a == b
  | .int a, .int b => Float.ofInt a == Float.ofInt b
  | .int a, .num b => Float.ofInt a == b
  | .num a, .int b => a == Float.ofInt b
  | .num a, .num b => a == b
  | .str a, .str b => a == b
  | .list xs, .list ys => sameItems xs ys
  | .record xs, .record ys => xs.length == ys.length && sameFields xs ys
  | _, _ => false

/-- Are two lists the same? -/
def sameItems : List Value → List Value → Bool
  | [], [] => true
  | x :: xs, y :: ys => same x y && sameItems xs ys
  | _, _ => false

/-- Has the second record the fields of the first? -/
def sameFields : List (String × Value) → List (String × Value) → Bool
  | [], _ => true
  | (k, v) :: rest, ys =>
    (match (Value.record ys).field? k with
      | some w => same v w
      | none => false) && sameFields rest ys

end

mutual

/-- The fields of a record without records in it, their keys joined by dots. -/
def flatten (path : String) : List (String × Value) → List (String × Value)
  | [] => []
  | (k, v) :: rest =>
    flattenField (if path = "" then k else path ++ "." ++ k) v ++ flatten path rest

/-- The flat fields of one field. -/
def flattenField (key : String) : Value → List (String × Value)
  | .record fields => flatten key fields
  | v => [(key, v)]

end

/-- The fields that differ from those of another flat record, where a missing one
counts as `null`. -/
def differing (fields others : List (String × Value)) : List (String × Value) :=
  fields.filter fun (k, v) => !same v (((Value.record others).field? k).getD .null)

/-- Fields in the order of their keys. -/
def sortFields (fields : List (String × Value)) : List (String × Value) :=
  fields.mergeSort fun a b => Text.lexLe a.1 b.1

mutual

/-- A value inside another one. -/
def inner : Value → String
  | .null => "<nil>"
  | .bool b => if b then "true" else "false"
  | .int n => Decimal.general (Float.ofInt n)
  | .num x => Decimal.general x
  | .str s => s
  | .list items => "[" ++ Text.join " " (innerItems items) ++ "]"
  | .record fields =>
    "map[" ++ Text.join " " ((sortFields (innerFields fields)).map innerPair) ++ "]"

/-- The items of a list. -/
def innerItems : List Value → List String
  | [] => []
  | v :: rest => inner v :: innerItems rest

/-- The fields of a record as texts. -/
def innerFields : List (String × Value) → List (String × Value)
  | [] => []
  | (k, v) :: rest => (k, .str (inner v)) :: innerFields rest

/-- A field that is a text. -/
def innerPair : String × Value → String
  | (k, .str s) => k ++ ":" ++ s
  | (k, _) => k ++ ":"

end

/-- A value as a setting is shown. -/
def shown : Value → String
  | .null => "(none)"
  | .str s => if s = "" then "\"\"" else s
  | .list items => "[" ++ Text.join ", " (items.map inner) ++ "]"
  | v => inner v

end Value

namespace Settings

/-- Settings as they are saved. -/
def toValue (s : Settings) : Value :=
  let backups := if s.logging.maxBackups = 0 then []
    else [("maxBackups", Value.int s.logging.maxBackups)]
  .record [("version", .int s.version), ("reservedNames", .ofTexts s.reservedNames),
    ("externalModules", .ofTexts s.externalModules), ("effectRoots", .bool s.effectRoots),
    ("privateMembersInternal", .bool s.privateMembersInternal),
    ("hardPrivate", .bool s.hardPrivate), ("ignoreDirs", .ofTexts s.ignoreDirs),
    ("bundle", .record [("strict", .bool s.strictBundles)]),
    ("locator", .record [("backend", .str s.backend), ("scipIndexPath", .str s.indexPath)]),
    ("history", .record [("enabled", .bool s.historyEnabled), ("keep", .int s.historyKeep)]),
    ("logging", .record ([("format", .str s.logging.format), ("level", .str s.logging.level)]
      ++ Value.textField "file" s.logging.file ++ Value.textField "maxSize" s.logging.maxSize
      ++ backups))]

/-- The text of a settings file. -/
def save (s : Settings) : String := Json.indented s.toValue

/-- A whole number that floating point does not hold exactly, rounded. -/
def rounded : Value → Value
  | .int n => if n.natAbs ≤ exactBound then .int n else .num (Float.ofInt n)
  | v => v

/-- Settings by key. -/
def flat (s : Settings) : List (String × Value) :=
  match s.toValue with
  | .record fields => (Value.flatten "" fields).map fun f => (f.1, rounded f.2)
  | _ => []

/-- The settings that differ from the defaults. -/
def changed (s : Settings) : List (String × Value) := Value.differing s.flat defaults.flat

/-- The environment variables that override a setting, whatever they are set to. -/
def overrides (environment : List (String × String)) : List (String × String) :=
  SettingKey.all.filterMap fun k => environment.find? fun v => v.1 == k.override

/-- The line of a setting, with its default if that is another value. -/
def settingLine (key : String) (v : Value) : String :=
  let usual := ((Value.record defaults.flat).field? key).getD .null
  let note := if Value.same v usual then "" else " (default: " ++ usual.shown ++ ")"
  key ++ ": " ++ v.shown ++ note ++ "\n"

/-- A line of a width. -/
def rule (c : Char) (width : Nat) : String := String.ofList (List.replicate width c)

/-- The settings as they are shown; `path` is that of the settings file, if there is
one, and `onlyChanged` leaves out what is as usual. -/
def overview (s : Settings) (path : Option String) (overridden : List (String × String))
    (onlyChanged : Bool) : String :=
  let fields := if onlyChanged then s.changed else s.flat
  let source := match path with
    | some p => "Source: " ++ p ++ "\n"
    | none => "Source: defaults (no config file found)\n"
  let names := overridden.mergeSort fun a b => Text.lexLe a.1 b.1
  let listed := if names.isEmpty then ""
    else "\nEnvironment Overrides:\n"
      ++ String.join (names.map fun v => "  " ++ v.1 ++ "=" ++ v.2 ++ "\n")
  let head := if onlyChanged then
      "Modified Settings (differs from defaults):\n\n"
      ++ (if fields.isEmpty then "  (no modifications - using all defaults)\n" else "")
    else ""
  let lines := SettingKey.all.filterMap fun k =>
    ((Value.record fields).field? k.text).map (settingLine k.text)
  let tick := String.ofList [Char.ofNat 0x27]
  "tsmangle Configuration\n" ++ rule '─' 50 ++ "\n" ++ source ++ listed ++ "\n" ++ head
    ++ String.join lines
    ++ "\nUse " ++ tick ++ "tsmangle config show --format json" ++ tick
    ++ " for machine-readable output\n"
    ++ "Use " ++ tick ++ "tsmangle config env" ++ tick
    ++ " to see supported environment variables\n"

/-- The settings as a record. -/
def overviewValue (s : Settings) (path : Option String) (overridden : List (String × String))
    (onlyChanged : Bool) : Value :=
  let listed := if overridden.isEmpty then []
    else [("envOverrides", Value.record
      (Value.sortFields (overridden.map fun v => (v.1, Value.str v.2))))]
  .record (Value.textField "configPath" (path.getD "") ++ [("usedDefaults", .bool path.isNone)]
    ++ listed
    ++ [("config", .record (Value.sortFields (if onlyChanged then s.changed else s.flat)))])

/-- What kind of value an environment variable holds. -/
def variableKind (k : SettingKey) : String :=
  match (Value.record defaults.flat).field? k.text with
  | some (.bool _) => "bool"
  | some (.int _) => "int"
  | some (.list _) => "list"
  | _ => "string"

/-- The environment variables, their keys and kinds. -/
def variableTable : List (String × String × String) :=
  SettingKey.all.map fun k => (k.override, k.text, variableKind k)

end Settings
end Moniker
