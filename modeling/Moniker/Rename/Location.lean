/-
# Places to rename

Source: `rename.Location.Replacement`, `rename.Kind.String`.

A `Location` is one occurrence of a symbol: a byte range of a file, and the text
to keep on either side of the new name.  The kind says why text is kept.

| kind | source | new name `n` gives |
| --- | --- | --- |
| shorthand value | `y` in an object | `y: n` |
| shorthand key | `y` in an object | `n: y` |
| export specifier | `x` in an export clause | `n as x` |
| import specifier | `x` in an import clause | `x as n` |
| string key | the inside of a quoted key | `n` |
| private name | `#x`, hash included | `n` |
-/

import Moniker.Diagnostic

namespace Moniker

/-- Why a location keeps text around the new name. -/
inductive LocationKind where
  | plain
  | shorthandValue
  | shorthandKey
  | exportSpecifier
  | importSpecifier
  | stringKey
  | privateName
deriving DecidableEq, Inhabited

namespace LocationKind

/-- The word a kind is shown by. -/
def name : LocationKind → String
  | plain => "plain"
  | shorthandValue => "shorthand-value"
  | shorthandKey => "shorthand-key"
  | exportSpecifier => "export-specifier"
  | importSpecifier => "import-specifier"
  | stringKey => "string-key"
  | privateName => "private-name"

/-- All kinds. -/
def all : List LocationKind :=
  [plain, shorthandValue, shorthandKey, exportSpecifier, importSpecifier, stringKey, privateName]

/-- The kind of a word; any other word is plain. -/
def ofName (s : String) : LocationKind := (all.find? fun k => k.name == s).getD plain

end LocationKind

/-- One occurrence of a symbol. -/
structure Location where
  file : String
  start : Int
  stop : Int
  kind : LocationKind := .plain
  /-- Text kept before the new name. -/
  before : String := ""
  /-- Text kept after the new name. -/
  after : String := ""
deriving DecidableEq, Inhabited

namespace Location

/-- A location as it is shown. -/
def describe (l : Location) : String :=
  l.file ++ ":" ++ toString l.start ++ "-" ++ toString l.stop ++ "(" ++ l.kind.name ++ ")"

/-- What is written over the location. -/
def replacement (l : Location) (newName : String) : String := l.before ++ newName ++ l.after

end Location

/-- Asks for the symbol at a place to be renamed. -/
structure Directive where
  file : String
  pos : Int
  oldName : String
  target : String
deriving DecidableEq, Inhabited

/-- A new name and every place it goes to. -/
structure RenameItem where
  oldName : String
  target : String
  locations : List Location
deriving Inhabited

/-- How the occurrences of the symbol at a place are found. -/
abbrev Locator := String → Int → Except Failure (List Location)

end Moniker
