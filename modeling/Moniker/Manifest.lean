/-
# Project manifests

Source: `manifest.File.Validate`, `nested`, `File.Entry`, `Entry.Dir`, `ReservedNames`,
`ExternalModuleNames`, `Example`.

A manifest lists the entries of a project.  An entry is a directory whose sources
are processed together: its declarations are renamed, and one of its files may be
bundled.

A manifest is valid if every entry has a name of its own and a root, every path
stays inside the project, an output comes with a bundle, and no root lies in
another one.  So two entries never share a source file.
-/

import Moniker.Diagnostic
import Moniker.Path
import Moniker.Text.Quoted

namespace Moniker

/-- One unit of work. -/
structure ManifestEntry where
  name : String := ""
  /-- The directory of its sources. -/
  root : String := ""
  /-- The files whose exports are public, all if there are none. -/
  publicFiles : List String := []
  /-- The file to bundle, if any. -/
  bundle : String := ""
  /-- Where the bundle is written. -/
  output : String := ""
  strict : Bool := false
  reserved : List String := []
  externalModules : List String := []
deriving DecidableEq, Inhabited

/-- The entries of a project and what holds for all of them. -/
structure Manifest where
  version : Int := 0
  reserved : List String := []
  externalModules : List String := []
  entries : List ManifestEntry := []
deriving DecidableEq, Inhabited

/-- Why a manifest is not valid. -/
inductive ManifestError where
  | unnamed (index : Nat)
  | repeatedName (name : String)
  | rootless (name : String)
  | escaping (name path : String)
  | outputOnly (name : String)
  | overlapping (name root other : String)
deriving DecidableEq, Inhabited

namespace ManifestError

/-- The text of an error. -/
def message : ManifestError → String
  | unnamed i => "entry " ++ toString i ++ ": missing name"
  | repeatedName name => "entry " ++ Text.quote name ++ " declared twice"
  | rootless name => "entry " ++ Text.quote name ++ ": missing root"
  | escaping name path =>
    "entry " ++ Text.quote name ++ ": path " ++ Text.quote path ++ " escapes the project"
  | outputOnly name => "entry " ++ Text.quote name ++ ": output without bundle"
  | overlapping name root other =>
    "entry " ++ Text.quote name ++ ": root " ++ Text.quote root ++ " overlaps entry "
    ++ Text.quote other

/-- The name of the file a manifest is kept in. -/
def fileName : String := "MANGLE.toml"

/-- The failure of a command on such a manifest. -/
def failure (e : ManifestError) : Failure := .of .configInvalid (fileName ++ ": " ++ e.message)

end ManifestError

namespace ManifestEntry

/-- The clean form of the root. -/
def cleanRoot (e : ManifestEntry) : String := Path.clean e.root

/-- The paths an entry names. -/
def paths (e : ManifestEntry) : List String := e.root :: e.bundle :: e.output :: e.publicFiles

/-- The first path that leaves the project. -/
def escapingPath? (e : ManifestEntry) : Option String :=
  e.paths.find? fun p => p ≠ "" && !Path.within p

/-- Does the root of one entry lie in that of the other? -/
def overlaps (a b : ManifestEntry) : Bool :=
  Path.nested a.cleanRoot b.cleanRoot || Path.nested b.cleanRoot a.cleanRoot

/-- The directory of an entry's sources. -/
def dir (e : ManifestEntry) (projectRoot : String) : String := Path.join [projectRoot, e.root]

/-- Checks an entry against those before it. -/
def check (before : List ManifestEntry) (index : Nat) (e : ManifestEntry) :
    Except ManifestError Unit :=
  if e.name = "" then .error (.unnamed index)
  else if before.any fun b => b.name = e.name then .error (.repeatedName e.name)
  else if e.root = "" then .error (.rootless e.name)
  else
    match e.escapingPath? with
    | some p => .error (.escaping e.name p)
    | none =>
      if e.output ≠ "" ∧ e.bundle = "" then .error (.outputOnly e.name)
      else
        match before.find? fun b => e.overlaps b with
        | some b => .error (.overlapping e.name e.root b.name)
        | none => .ok ()

end ManifestEntry

namespace Manifest

/-- Checks the entries left after those of `before`. -/
def checkFrom (before : List ManifestEntry) : List ManifestEntry → Except ManifestError Unit
  | [] => .ok ()
  | e :: rest => do
    e.check before before.length
    checkFrom (before ++ [e]) rest

/-- Is the manifest valid? -/
def validate (m : Manifest) : Except ManifestError Unit := checkFrom [] m.entries

/-- The entry of a name. -/
def entry? (m : Manifest) (name : String) : Option ManifestEntry :=
  m.entries.find? fun e => e.name = name

/-- The names an entry reserves, the manifest's first. -/
def reservedFor (m : Manifest) (e : ManifestEntry) : List String :=
  (m.reserved ++ e.reserved).eraseDups

/-- The external modules of an entry, the manifest's first. -/
def externalFor (m : Manifest) (e : ManifestEntry) : List String :=
  (m.externalModules ++ e.externalModules).eraseDups

/-- A manifest to start from. -/
def starter : Manifest :=
  { version := 1
    reserved := ["$"]
    entries :=
      [{ name := "app", root := "src", publicFiles := ["index.ts"], bundle := "index.ts",
         output := "dist/index.ts" }] }

end Manifest
end Moniker
