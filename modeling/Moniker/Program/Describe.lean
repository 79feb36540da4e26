/-
# Programs as records

Source: `Type.String`, `Symbol.String`, `Scope.Names`.

Types, scopes and modules of a program as records, for whoever wants to look at
them.  A type is shown down to a depth and below it by its text; symbols are shown
by their descriptions.
-/

import Moniker.Data.Value
import Moniker.Program.Linking
import Moniker.Typing.Graph

namespace Moniker
namespace Program

variable (p : Program)

/-- A symbol. -/
def symbolValue (s : SymbolId) : Value := .str ((p.symbol s).describe p.source)

/-- A symbol that there may be. -/
def symbolValue? (s? : Option SymbolId) : Value := (s?.map p.symbolValue).getD .null

/-- Several symbols. -/
def symbolValues (ss : List SymbolId) : Value := .list (ss.map p.symbolValue)

/-- A place in a file with its kind. -/
def nodeValue (n : NodeId) : Value :=
  .list [.str (p.source.pathOf n), .str (p.source.kind n), .int (p.source.start n),
    .int (p.source.stop n)]

/-- A signature, its result being shown by `result`. -/
def signatureValue (result : TypeId → Value) (s : Signature) : Value :=
  .record [("typeParams", p.symbolValues s.typeParameters), ("params", p.symbolValues s.parameters),
    ("return", result s.result)]

/-- A type, `levels` levels deep. Intrinsic types are shown by their text. -/
def typeValue : Nat → Option TypeId → Value
  | _, none => .null
  | 0, some t => .str (p.typeText t)
  | levels + 1, some t =>
    let info := p.typeInfo t
    if info.kind = .intrinsic then .str (p.typeText t)
    else
      let symbolField (key : String) (s? : Option SymbolId) :=
        s?.toList.map fun s => (key, p.symbolValue s)
      let typeField (key : String) (t? : Option TypeId) :=
        t?.toList.map fun t => (key, typeValue levels (some t))
      let typesField (key : String) (ts : List (Option TypeId)) :=
        Value.listField key (ts.map (typeValue levels))
      .record ([("kind", .str info.kind.name), ("text", .str (p.typeText t))]
        ++ symbolField "symbol" info.symbol ++ symbolField "alias" info.alias?
        ++ typesField "aliasArgs" info.aliasArgs ++ typesField "typeArgs" (info.typeArgs.map some)
        ++ typesField "types" (info.parts.map some) ++ typesField "bases" (info.bases.map some)
        ++ Value.listField "members" ((p.typeMembers t).map p.symbolValue)
        ++ Value.listField "signatures"
          (info.signatures.map (p.signatureValue fun t => typeValue levels (some t)))
        ++ typeField "constraint" info.constraint ++ typeField "instance" info.instance?)

/-- A scope with the scopes in it, at most `levels` levels deep. -/
def scopeValueWithin : Nat → ScopeId → Value
  | 0, _ => .null
  | levels + 1, s =>
    let sc := p.scope s
    .record [("kind", .str sc.kind.name), ("node", (sc.node.map p.nodeValue).getD .null),
      ("symbols", p.symbolValues sc.symbols),
      ("children", .list (sc.children.map (scopeValueWithin levels)))]

/-- A scope with the scopes in it. -/
def scopeValue (s : ScopeId) : Value := p.scopeValueWithin (p.scopes.size + 1) s

end Program

namespace Build

/-- A binding of an import and what it stands for. -/
def bindingValue (b : SymbolId) : Build Value := do
  let target ← resolveAlias b
  let p ← get
  let file := (target.bind fun t => (p.symbol t).decls.head?).map fun d =>
    Value.str (p.source.pathOf d)
  return .list [p.symbolValue b, .str (p.symbol b).importedName, .bool target.isSome,
    p.symbolValue? target, file.getD .null]

/-- An import statement. -/
def importValue (i : Import) : Build Value := do
  let bindings ← i.bindings.mapM bindingValue
  return .record [("source", .str i.specifier), ("typeOnly", .bool i.typeOnly),
    ("sideEffect", .bool i.isSideEffect), ("bindings", .list bindings)]

/-- An exported symbol and what it stands for. -/
def exportValue (s : SymbolId) : Build Value := do
  let target ← resolveAlias s
  let p ← get
  return .list [p.symbolValue s, p.symbolValue? target]

/-- A file as a module. -/
def moduleValue (f : FileId) : Build Value := do
  let p ← get
  let m := p.moduleOf f
  let imports ← m.imports.mapM importValue
  let exports ← (p.exportsOfFile f).mapM exportValue
  let effect (n : NodeId) : Value :=
    .list [.int (p.source.start n), .int (p.source.stop n), .str (p.source.kind n)]
  return .record [("script", .bool m.isScript),
    ("declaration", .bool (isDeclarationPath (p.source.file f).path)),
    ("imports", .list imports), ("exports", .list exports),
    ("unresolved", .ofTexts (p.unresolvedNames f)),
    ("effects", .list ((p.effectRoots f).map effect))]

end Build
end Moniker
