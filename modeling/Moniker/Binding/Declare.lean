/-
# Declaring names

Source: `program.binder.declare`, `mergeable`, `declareMember`, `declarePattern`,
`Scope.declare`, `Scope.register`.

A name node is declared in a scope under the text it spells.  Three rules decide
what becomes of it.

* A `var` or a function-scoped name goes out to the nearest scope that is not a
  block.
* A top-level name of a script is global.
* If the scope already has the name and both declarations may `merge`, the node
  joins the symbol that is there; otherwise it becomes a symbol of its own.  The
  first symbol of a name keeps it.

Members go into the table of their owner, where two declarations of one name are
always one symbol.
-/

import Moniker.Program.Basic

namespace Moniker
namespace Binding

/-- Where a visit stands. -/
structure Site where
  module : ModuleId
  file : FileId
  /-- Only types are declared here, no code. -/
  ambient : Bool
  /-- The class whose body is being visited. -/
  enclosing : Option SymbolId := none
  /-- The scope whose new symbols are being collected. -/
  collecting : Option ScopeId := none
deriving Inhabited

/-- A step of a visit: it extends the program and may add to the symbols
collected so far. -/
abbrev Bind := StateT (List SymbolId) Build

/-- May declarations of these traits under one name be one symbol? Overloads,
interfaces with interfaces and classes, anything with a namespace, enums, and
`var`s. -/
def mergeable (existing incoming : Traits) : Bool :=
  (existing.has .functionDecl && incoming.has .functionDecl)
  || (existing.has .interfaceDecl && (incoming.has .interfaceDecl || incoming.has .classDecl))
  || (existing.has .classDecl && incoming.has .interfaceDecl)
  || (existing.has .namespaceDecl || incoming.has .namespaceDecl)
  || (existing.has .enumDecl && incoming.has .enumDecl)
  || (existing.has .variableDecl && incoming.has .variableDecl
      && !existing.has .blockScoped && !incoming.has .blockScoped)

/-- Does a declaration of these traits go out of blocks? -/
def hoists (traits : Traits) : Bool :=
  traits.has .variableDecl && !traits.has .blockScoped && !traits.has .parameter

/-- The nearest scope outwards that is not a block inside another scope. -/
def hoistTarget (p : Program) (s : ScopeId) : ScopeId :=
  ((p.outward s).find? fun c =>
    (p.scope c).kind != .block || (p.scope c).parent.isNone).getD s

/-- The scope a declaration made in `s` lands in. -/
def landing (p : Program) (site : Site) (s : ScopeId) (traits : Traits) : ScopeId :=
  let target := if hoists traits then hoistTarget p s else s
  let m := p.moduleInfo site.module
  if target == m.scope && m.isScript && !m.isAmbient then Program.globalScope else target

/-- The name a name node spells. -/
def nameOf (src : Source) (name : NodeId) : String :=
  if src.kind name == "string" then unquote (src.text name) else src.text name

theorem spells_nameOf (src : Source) (name : NodeId) : src.Spells name (nameOf src name) := by
  unfold nameOf
  split
  · exact Source.spells_unquote name
  · exact .inl rfl

/-- Declares a name node in a scope and returns its symbol. -/
def declare (src : Source) (site : Site) (s : ScopeId) (name : NodeId) (traits : Traits) :
    Bind SymbolId := do
  let target ← Build.read fun p => landing p site s traits
  let traits := traits.insertIf site.ambient .ambient
  let text := nameOf src name
  let existing? ← Build.read fun p =>
    ((p.scope target).own? text).filter fun e => mergeable (p.symbol e).traits traits
  match existing? with
  | some existing =>
    Build.updateSymbol existing fun sym =>
      { sym with traits := sym.traits.union traits, decls := sym.decls ++ [name] }
    Build.setDeclared name existing
    let merged ← Build.read fun p => p.symbol existing
    Build.updateScope target fun sc => sc.register existing merged
    return existing
  | none =>
    let sym : Symbol :=
      { name := text, traits := traits, decls := [name], scope := some target, file := site.file }
    let id ← Build.newSymbol sym
    Build.updateScope target fun sc => sc.declare id sym
    Build.setDeclared name id
    if site.collecting == some target then modify (· ++ [id])
    return id

/-- Declares the name under a field, if it is there. -/
def declare? (src : Source) (site : Site) (s : ScopeId) (name? : Option NodeId)
    (traits : Traits) : Bind (Option SymbolId) := do
  match name? with
  | none => return none
  | some name => return some (← declare src site s name traits)

/-- Declares an import binding: it neither merges nor becomes global. -/
def declareImport (src : Source) (site : Site) (s : ScopeId) (name : NodeId) (traits : Traits)
    (specifier imported : String) : Bind SymbolId := do
  let sym : Symbol :=
    { name := src.text name, traits := traits.insertIf site.ambient .ambient, decls := [name],
      scope := some s, file := site.file, specifier := specifier, importedName := imported }
  let id ← Build.newSymbol sym
  Build.updateScope s fun sc => sc.declare id sym
  Build.setDeclared name id
  return id

/-- Is the member name written as a literal? -/
def isLiteralName (src : Source) (name : NodeId) : Bool := src.isKind name ["string", "number"]

/-- Declares a member of `owner` in one of its tables. Accessor pairs and
overloads share a symbol. -/
def declareMember (src : Source) (file : FileId) (ambient : Bool) (t : TableId)
    (owner : SymbolId) (name : NodeId) (traits : Traits) : Build SymbolId := do
  let text := nameOf src name
  let traits := (traits.insertIf (isLiteralName src name) .quoted).insertIf ambient .ambient
  match (← get).table t |>.find? text with
  | some existing =>
    Build.updateSymbol existing fun sym =>
      { sym with traits := sym.traits.union traits, decls := sym.decls ++ [name] }
    Build.setDeclared name existing
    return existing
  | none =>
    let id ← Build.newSymbol
      { name := text, traits := traits, decls := [name], owner := some owner, file := file }
    Build.addMember t text id
    Build.setDeclared name id
    return id

end Binding
end Moniker
