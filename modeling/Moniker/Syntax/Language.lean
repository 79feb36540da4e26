/-
# Dialects

Source: `parser.LanguageFromPath`, `parser.IsSourcePath`, `ast.File.IsDeclaration`.

The extension of a path, read without regard to case, says which grammar a file
is parsed with, and the whole ending whether it only declares types.
-/

import Moniker.Path

namespace Moniker

/-- The dialects there are grammars for. -/
inductive Language where
  | typescript
  | tsx
  | javascript
deriving DecidableEq, Inhabited

namespace Language

/-- The name of a dialect. -/
def name : Language → String
  | typescript => "typescript"
  | tsx => "tsx"
  | javascript => "javascript"

/-- The dialect of a path. -/
def ofPath? (path : String) : Option Language :=
  let ext := (Path.extension path).toLower
  if [".ts", ".mts", ".cts"].contains ext then some typescript
  else if ext == ".tsx" then some tsx
  else if [".js", ".mjs", ".cjs", ".jsx"].contains ext then some javascript
  else none

end Language

/-- Is there a grammar for this path? -/
def isSourcePath (path : String) : Bool := (Language.ofPath? path).isSome

/-- Does the file at this path only declare types? -/
def isDeclarationPath (path : String) : Bool :=
  Text.endsIn path ".d.ts" || Text.endsIn path ".d.mts" || Text.endsIn path ".d.cts"

end Moniker
