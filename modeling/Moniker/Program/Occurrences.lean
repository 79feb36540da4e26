/-
# Occurrences of a symbol

Source: `program.Program.SymbolAt`, `RenameLocations`, `locationOf`, `SymbolsInScope`.

The symbol at an offset is the one that the name node there declares or denotes;
inside a string literal the literal itself counts as the name.  Its occurrences
are its declarations and uses, ordered by file and offset, each with the text that
keeps shorthand and specifier forms intact.  Shapes and nameless classes have no
text to rename.

`visibleSymbols` lists what can be seen from a scope, innermost first.
-/

import Moniker.Program.Build
import Moniker.Rename.Location

namespace Moniker
namespace Program

variable (p : Program)

/-- The symbol a node declares or denotes. -/
def symbolOfNode? (n : NodeId) : Option SymbolId :=
  p.declared[n]? <|> p.referenced[n]? <|> p.memberAt[n]?

/-- From a node outwards through string literals, the first symbol met. -/
def symbolFrom? : Nat → NodeId → Option SymbolId
  | 0, _ => none
  | fuel + 1, n =>
    match p.symbolOfNode? n with
    | some s => some s
    | none =>
      if p.source.isKind n ["string_fragment", "string"] then
        (p.source.parent n).bind (symbolFrom? fuel)
      else none

/-- The symbol at an offset of a file. -/
def symbolAt (file : String) (pos : Int) : Except Failure SymbolId :=
  match p.fileAt? file with
  | none => .error (.of .fileNotFound ("file " ++ file ++ " is not part of the program"))
  | some f =>
    let found := do
      let n ← p.source.nodeAt? (p.source.file f).root pos
      p.symbolFrom? (p.source.nodes.size + 1) n
    match found with
    | some s => .ok s
    | none =>
      .error (.coded
        { code := .unresolvedSymbol, message := "no symbol at offset " ++ toString pos,
          place := some ⟨file, pos⟩ })

/-- The location of an occurrence of a symbol. -/
def locationOf (s : SymbolId) (n : NodeId) : Location :=
  let src := p.source
  let text := src.text n
  let plain : Location := { file := src.pathOf n, start := src.start n, stop := src.stop n }
  let asValue : Location := { plain with kind := .shorthandValue, before := text ++ ": " }
  let asKey : Location := { plain with kind := .shorthandKey, after := ": " ++ text }
  match src.kind n with
  | "shorthand_property_identifier" => if p.referenced[n]? == some s then asValue else asKey
  | "shorthand_property_identifier_pattern" => if p.declared[n]? == some s then asValue else asKey
  | "string" =>
    let key := { plain with kind := LocationKind.stringKey }
    if 2 ≤ (src.bytes n).size then { key with start := key.start + 1, stop := key.stop - 1 }
    else key
  | "private_property_identifier" => { plain with kind := .privateName }
  | _ =>
    match src.parent n with
    | none => plain
    | some parent =>
      let isBareName := src.field n == "name" && (src.child? parent "alias").isNone
      if src.kind parent == "export_specifier" && isBareName && p.referenced[n]? == some s then
        { plain with kind := .exportSpecifier, after := " as " ++ text }
      else if src.kind parent == "import_specifier" && isBareName && p.declared[n]? == some s then
        { plain with kind := .importSpecifier, before := text ++ " as " }
      else plain

/-- Ordered by path, then by offset. -/
def nodeLe (a b : NodeId) : Bool :=
  let src := p.source
  if src.pathOf a != src.pathOf b then Text.lexLe (src.pathOf a) (src.pathOf b)
  else src.start a ≤ src.start b

/-- The declarations and uses of a symbol, each once, in order. -/
def occurrences (s : SymbolId) : List NodeId :=
  (((p.symbol s).decls ++ (p.references s).toList).eraseDups).mergeSort p.nodeLe

/-- The places to rename for a symbol. -/
def renameLocations (s : SymbolId) : List Location :=
  ((p.occurrences s).filter fun n => !p.source.isKind n ["object", "object_type", "class"]).map
    (p.locationOf s)

/-- The places to rename for the symbol at an offset. -/
def locate : Locator := fun file pos => (p.symbolAt file pos).map p.renameLocations

/-- The names a scope declares in a name space. -/
def namesIn (space : Traits) (s : ScopeId) : List String :=
  ((p.scope s).symbols.filter fun x => (p.symbol x).isAny space).map fun x => (p.symbol x).name

/-- The symbols seen from the scopes of a list, innermost first. Names of values
in `values` and of types in `types` are hidden: a mask with values hides values,
any other mask hides types. -/
def visibleThrough (mask : Traits) : List ScopeId → List String → List String → List SymbolId
  | [], _, _ => []
  | s :: rest, values, types =>
    let own := (p.scope s).symbols.filter fun x =>
      let sym := p.symbol x
      let hidden :=
        if mask.meets Traits.value then sym.isAny Traits.value && values.contains sym.name
        else sym.isAny Traits.type && types.contains sym.name
      sym.isAny mask && !hidden
    own ++ visibleThrough mask rest
      (values ++ p.namesIn Traits.value s) (types ++ p.namesIn Traits.type s)

/-- The symbols of a mask that can be seen from a scope, innermost first. -/
def visibleSymbols (s : ScopeId) (mask : Traits) : List SymbolId :=
  p.visibleThrough mask (p.outward s) [] []

/-- The scope a place stands in: that of the nearest node around it that has one,
else the file's own. -/
def scopeAtOffset? (file : String) (pos : Int) : Option ScopeId := do
  let f ← p.fileAt? file
  let inner := do
    let n ← p.source.nodeAt? (p.source.file f).root pos
    (n :: p.source.ancestors n).findSome? fun a => p.scopeAt[a]?
  return inner.getD (p.moduleOf f).scope

/-- The names a scope declares, each once. -/
def scopeNames (s : ScopeId) : List String :=
  ((p.scope s).symbols.map fun x => (p.symbol x).name).eraseDups

end Program
end Moniker
