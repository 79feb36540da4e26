/-
# Manifests as text

Source: `manifest.Parse`, `manifest.Load`, `manifest.Write`.

A manifest is kept as a TOML document:

    version = 1
    reserved = ['$']

    [[entry]]
    name = 'app'
    root = 'src'

Reading does not look at the case of keys and passes over keys it does not know.
Writing leaves out what is empty.
-/

import Moniker.Data.Toml.Reader
import Moniker.Manifest

namespace Moniker
namespace Manifest

/-- The text of a node. -/
def textOf? : Toml.Node → Option String
  | .text s => some s
  | _ => none

/-- The texts of an array. -/
def textsOf? : Toml.Node → Option (List String)
  | .array items => items.mapM textOf?
  | _ => none

/-- Takes one field into an entry. -/
def readEntryField (e : ManifestEntry) (key : String) (v : Toml.Node) : Option ManifestEntry :=
  match key.toLower with
  | "name" => (textOf? v).map fun s => { e with name := s }
  | "root" => (textOf? v).map fun s => { e with root := s }
  | "public" => (textsOf? v).map fun xs => { e with publicFiles := xs }
  | "bundle" => (textOf? v).map fun s => { e with bundle := s }
  | "output" => (textOf? v).map fun s => { e with output := s }
  | "strict" =>
    match v with
    | .truth b => some { e with strict := b }
    | _ => none
  | "reserved" => (textsOf? v).map fun xs => { e with reserved := xs }
  | "external_modules" => (textsOf? v).map fun xs => { e with externalModules := xs }
  | _ => some e

/-- Reads an entry. -/
def readEntry (fields : List (String × Toml.Node)) : Option ManifestEntry :=
  fields.foldlM (fun e f => readEntryField e f.1 f.2) {}

/-- Reads entries written as tables or on a line. -/
def readEntries : Toml.Node → Option (List ManifestEntry)
  | .tables items => items.mapM readEntry
  | .array items => items.mapM fun
    | .table _ fields => readEntry fields
    | _ => none
  | _ => none

/-- Takes one field into a manifest. -/
def readField (m : Manifest) (key : String) (v : Toml.Node) : Option Manifest :=
  match key.toLower with
  | "version" =>
    match v with
    | .whole n => some { m with version := n }
    | _ => none
  | "reserved" => (textsOf? v).map fun xs => { m with reserved := xs }
  | "external_modules" => (textsOf? v).map fun xs => { m with externalModules := xs }
  | "entry" => (readEntries v).map fun es => { m with entries := es }
  | _ => some m

/-- Reads a manifest; a version below one counts as one. -/
def ofText? (text : String) : Option Manifest := do
  let fields ← Toml.parse? text
  let m ← fields.foldlM (fun m f => readField m f.1 f.2) ({} : Manifest)
  return { m with version := max m.version 1 }

/-- Reads a manifest and checks it. -/
def load (text : String) : Except Failure Manifest :=
  match ofText? text with
  | none => .error (.of .configInvalid ("failed to parse " ++ ManifestError.fileName))
  | some m =>
    match m.validate with
    | .ok () => .ok m
    | .error e => .error e.failure

/-- The failure where a project has no manifest. -/
def missing (projectRoot : String) : Failure :=
  .of .fileNotFound ("manifest not found: " ++ Path.join [projectRoot, ManifestError.fileName])

/-- Must a text stand between double quotes? -/
def needsEscapes (s : String) : Bool :=
  s.toList.any fun c =>
    c.toNat = 0x27 || (c.toNat < 0x20 && c ≠ '\t') || c.toNat = 0x7F

/-- How a character is written between double quotes. -/
def escapeChar (c : Char) : List Char :=
  if c = '"' ∨ c = '\\' then ['\\', c]
  else
    match c.toNat with
    | 8 => ['\\', 'b']
    | 9 => ['\\', 't']
    | 10 => ['\\', 'n']
    | 12 => ['\\', 'f']
    | 13 => ['\\', 'r']
    | n =>
      if n < 0x20 ∨ n = 0x7F then '\\' :: 'u' :: '0' :: '0' :: (Text.hex 2 n).map Char.toUpper
      else [c]

/-- A text between single quotes, or double ones where it has to be. -/
def quoted (s : String) : String :=
  if needsEscapes s then String.ofList ('"' :: (s.toList.flatMap escapeChar ++ ['"']))
  else String.ofList (Char.ofNat 0x27 :: (s.toList ++ [Char.ofNat 0x27]))

/-- A line for a list, unless it is empty. -/
def listLine (key : String) (xs : List String) : String :=
  if xs.isEmpty then "" else key ++ " = [" ++ Text.join ", " (xs.map quoted) ++ "]\n"

/-- A line for a text. -/
def textLine (key s : String) : String := key ++ " = " ++ quoted s ++ "\n"

/-- A line for a text, unless it is empty. -/
def optionalLine (key s : String) : String := if s = "" then "" else textLine key s

/-- An entry as a table. -/
def entryText (e : ManifestEntry) : String :=
  "\n[[entry]]\n" ++ textLine "name" e.name ++ textLine "root" e.root
  ++ listLine "public" e.publicFiles ++ optionalLine "bundle" e.bundle
  ++ optionalLine "output" e.output ++ (if e.strict then "strict = true\n" else "")
  ++ listLine "reserved" e.reserved ++ listLine "external_modules" e.externalModules

/-- A manifest as a document. -/
def toText (m : Manifest) : String :=
  "version = " ++ toString m.version ++ "\n" ++ listLine "reserved" m.reserved
  ++ listLine "external_modules" m.externalModules
  ++ (if m.entries.isEmpty then "entry = []\n" else String.join (m.entries.map entryText))

end Manifest
end Moniker
