/-
# What identifiers denote

Source: `program.Program.resolveFile`, `resolveNode`, `bindReference`,
`isValueReference`, `isTypeReference`.

Every identifier, shorthand property and type name of a file is looked up from
the scope it stands in.  It is a use of the symbol found, or it is unresolved.

Some names are not looked up: names that declare, the names of imports, the parts
of a dotted name after the first, and the names of JSX elements that start with a
small letter.
-/

import Moniker.Program.Linking

namespace Moniker
namespace References

/-- Is the first byte of a text, read as a Latin-1 letter, a capital? -/
def startsUpper (text : String) : Bool :=
  match text.toUTF8.toList with
  | [] => false
  | b :: _ =>
    let c := b.toNat
    (0x41 ≤ c && c ≤ 0x5A) || (0xC0 ≤ c && c ≤ 0xDE && c != 0xD7)

/-- Does the identifier use a value name? -/
def isValueUse (p : Program) (n : NodeId) : Bool :=
  let src := p.source
  match src.parent n with
  | none => false
  | some parent =>
    match src.kind parent with
    | "export_specifier" =>
      p.specifiers.contains n
      || (src.field n == "name"
          && match (src.child? parent "alias").bind fun a => p.declared[a]? with
            | some s => (p.symbol s).specifier == ""
            | none => false)
    | "import_specifier" | "namespace_import" | "import_clause" | "namespace_export"
    | "nested_identifier" | "meta_property" | "import_require_clause" => false
    | "jsx_opening_element" | "jsx_closing_element" | "jsx_self_closing_element" =>
      src.field n == "name" && startsUpper (src.text n)
    | _ => !(p.declared.contains n && src.kind n != "shorthand_property_identifier")

/-- Does the identifier use a type name? -/
def isTypeUse (p : Program) (n : NodeId) : Bool :=
  let src := p.source
  let isMember :=
    match src.parent n with
    | some parent => src.kind parent == "nested_type_identifier" && src.field n == "name"
    | none => false
  !p.declared.contains n && !isMember

/-- Does the node stand in an export clause? -/
def inExportClause (src : Source) (n : NodeId) : Bool :=
  match src.parent n with
  | some parent => src.kind parent == "export_specifier"
  | none => false

/-- Records what an identifier denotes. An export clause may also name a type. -/
def link (src : Source) (n : NodeId) (s : ScopeId) (found : Option SymbolId) : Build Unit := do
  let found ← Build.read fun p =>
    found <|> if inExportClause src n then p.lookupType? s (src.text n) else none
  match found with
  | none => modify fun p => { p with unresolved := p.unresolved.push n }
  | some sym =>
    modify fun p => { p with referenced := p.referenced.insert n sym }
    Build.addUse n sym

/-- Links the identifiers from a node down, at most `fuel` levels deep. -/
def linkWithin (src : Source) : Nat → NodeId → ScopeId → Build Unit
  | 0, _, _ => pure ()
  | fuel + 1, n, outer => do
    let s ← Build.read fun p => (p.scopeAt[n]?).getD outer
    match src.kind n with
    | "identifier" | "shorthand_property_identifier" =>
      if ← Build.read fun p => isValueUse p n then
        link src n s (← Build.read fun p => p.lookupValue? s (src.text n))
    | "type_identifier" =>
      if ← Build.read fun p => isTypeUse p n then
        link src n s (← Build.read fun p => p.lookupType? s (src.text n))
    | _ => ((src.children n).filter src.named).forM fun c => linkWithin src fuel c s

/-- Links the identifiers of a file. -/
def linkFile (src : Source) (f : FileId) : Build Unit := do
  let scope ← Build.read fun p => (p.moduleOf f).scope
  linkWithin src (src.nodes.size + 1) (src.file f).root scope

end References
end Moniker
