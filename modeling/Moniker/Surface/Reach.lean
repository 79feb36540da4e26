/-
# The public surface

Source: `analyzer.CollectRelated`, `visitSymbol`, `visitNode`, `visitType`, `drain`.

What outside code can see of a program: the exports of its root files, the global
variables and types a file shares, the exports of the external modules, the values
that leave the program, and everything these lead to.

The surface is explored over three sorts of items.

| from | to |
| --- | --- |
| an alias | the types of what it stands for |
| another symbol | its declarations, the type of its value, the type it declares |
| a node | the symbol it declares or denotes, its type |
| a type | its symbols, arguments, parts, members, signatures, constraint, bases |

Intrinsic types are never entered, and members marked `private` can be kept out.
`explore` visits what a list of items leads to; how an item leads on is a
parameter.  What the items of a program lead to is asked of a `Checker`: a program
works out its types on the way, and a fixed graph of types can be asked as well.
-/

import Moniker.Program.Occurrences

namespace Moniker

/-- What the surface is made of. -/
inductive Item where
  | symbol (s : SymbolId)
  | type (t : TypeId)
  | node (n : NodeId)
deriving DecidableEq, Inhabited

/-- What of a program has been found to be visible. -/
structure Surface where
  symbols : KeySet SymbolId := {}
  types : KeySet TypeId := {}
  nodes : KeySet NodeId := {}
deriving Inhabited

namespace Surface

/-- Is the item on the surface? -/
def contains (r : Surface) : Item → Bool
  | .symbol s => r.symbols.contains s
  | .type t => r.types.contains t
  | .node n => r.nodes.contains n

/-- The surface with one more item. -/
def insert (r : Surface) : Item → Surface
  | .symbol s => { r with symbols := r.symbols.insert s }
  | .type t => { r with types := r.types.insert t }
  | .node n => { r with nodes := r.nodes.insert n }

/-- Visits what the items lead to, the last one put on the list first. An exploration
that never ends has no result. -/
def explore (next : Item → StateM σ (List Item)) (work : List Item) (r : Surface) (p : σ) :
    Option (Surface × σ) :=
  match work.dropWhile r.contains with
  | [] => some (r, p)
  | item :: rest =>
    let (more, p) := next item p
    r.insert item |>.explore next (more.reverse ++ rest) p
partial_fixpoint

end Surface

/-- What makes a declaration public. -/
structure SurfaceOptions where
  /-- The files whose exports are public, all analysed files if empty. -/
  roots : List FileId := []
  /-- Ambient modules whose exports are public too. -/
  externalModules : List String := []
  /-- Values that leave the program are public. -/
  effectRoots : Bool := true
  /-- Members marked `private` stay internal in a public class. -/
  privateMembersInternal : Bool := false
  /-- Names that are neither changed nor given. -/
  reserved : List String := []
deriving Inhabited

/-- What a surface is explored through: a program as it stands, and questions about it
whose answers may have to be worked out. -/
structure Checker (σ : Type) where
  /-- All files of the program. -/
  files : σ → List FileId
  exports : σ → FileId → List SymbolId
  ambientExports : σ → String → List SymbolId
  /-- The values of a file that leave the program. -/
  effectRoots : σ → FileId → List NodeId
  moduleScope? : σ → FileId → Option ScopeId
  visibleSymbols : σ → ScopeId → Traits → List SymbolId
  scopeKind : σ → ScopeId → ScopeKind
  fileOf : σ → NodeId → FileId
  symbol : σ → SymbolId → Symbol
  declared? : σ → NodeId → Option SymbolId
  referenced? : σ → NodeId → Option SymbolId
  typeInfo : σ → TypeId → TypeInfo
  isIntrinsic : σ → TypeId → Bool
  typeMembers : σ → TypeId → List SymbolId
  resolveAlias : SymbolId → StateM σ (Option SymbolId)
  typeOfSymbol : SymbolId → StateM σ (Option TypeId)
  declaredTypeOf : SymbolId → StateM σ (Option TypeId)
  typeOfNode : NodeId → StateM σ (Option TypeId)

namespace Checker

variable (c : Checker σ)

/-- Types as items, intrinsic types left out. -/
def typeItems (p : σ) (ts : List TypeId) : List Item :=
  (ts.filter fun t => !c.isIntrinsic p t).map .type

/-- What a symbol leads to. An alias shows what it stands for, not itself. -/
def fromSymbol (s : SymbolId) : StateM σ (List Item) := do
  let sym := c.symbol (← get) s
  if sym.isAlias then
    match ← c.resolveAlias s with
    | none => return []
    | some target =>
      if target == s then return []
      else
        let value? ← c.typeOfSymbol target
        let declared? ← c.declaredTypeOf target
        return c.typeItems (← get) (value?.toList ++ declared?.toList)
  else
    let value? ← c.typeOfSymbol s
    let declared? ←
      if sym.isAny (Traits.type.insert .shape) then c.declaredTypeOf s else pure none
    return sym.decls.map .node ++ c.typeItems (← get) (value?.toList ++ declared?.toList)

/-- What a node leads to. -/
def fromNode (n : NodeId) : StateM σ (List Item) := do
  let p ← get
  let sym? := c.declared? p n <|> c.referenced? p n
  let t? ← c.typeOfNode n
  return (sym?.map Item.symbol).toList ++ c.typeItems (← get) t?.toList

/-- What a type leads to. -/
def fromType (p : σ) (privateInternal : Bool) (t : TypeId) : List Item :=
  let info := c.typeInfo p t
  let shown (m : SymbolId) : Bool := !(privateInternal && (c.symbol p m).has .softPrivate)
  let signature (sig : Signature) : List Item :=
    (sig.typeParameters ++ sig.parameters).map Item.symbol ++ c.typeItems p [sig.result]
  (info.symbol.toList ++ info.alias?.toList).map Item.symbol
  ++ c.typeItems p (info.aliasArgs.filterMap id ++ info.typeArgs ++ info.parts)
  ++ ((c.typeMembers p t).filter shown).map Item.symbol
  ++ info.signatures.flatMap signature
  ++ c.typeItems p (info.constraint.toList ++ info.bases ++ info.instance?.toList)

/-- What an item leads to. -/
def next (privateInternal : Bool) : Item → StateM σ (List Item)
  | .symbol s => c.fromSymbol s
  | .node n => c.fromNode n
  | .type t => return c.fromType (← get) privateInternal t

/-- Is the symbol declared in the global scope? -/
def isGlobal (p : σ) (s : SymbolId) : Bool :=
  match (c.symbol p s).scope with
  | some sc => c.scopeKind p sc == .global
  | none => false

/-- The global variables a scope can see. -/
def globalVariables (p : σ) (scope : ScopeId) : List SymbolId :=
  (c.visibleSymbols p scope (Traits.of [.variableDecl])).filter fun s =>
    c.isGlobal p s && !(c.symbol p s).has .blockScoped

/-- The global types a file can see that are no values and come from elsewhere. -/
def foreignTypes (p : σ) (f : FileId) (scope : ScopeId) : List SymbolId :=
  (c.visibleSymbols p scope Traits.type).filter fun s =>
    c.isGlobal p s && !(c.symbol p s).isAny Traits.value
    && !(c.symbol p s).decls.any fun d => c.fileOf p d == f

/-- What a file sees of the global scope. -/
def globals (p : σ) (f : FileId) : List SymbolId :=
  ((c.moduleScope? p f).map fun scope =>
    c.globalVariables p scope ++ c.foreignTypes p f scope).getD []

/-- What the surface starts from when these files are processed, in the order in which
it is explored: the exports of the roots, what each file sees of the global scope, the
exports of the external modules, the values that leave the program. -/
def phases (files : List FileId) (opts : SurfaceOptions) : List (σ → List Item) :=
  let roots := if opts.roots.isEmpty then files else opts.roots
  [fun p => (roots.flatMap (c.exports p)).map .symbol]
  ++ files.map (fun f p => (c.globals p f).map .symbol)
  ++ [fun p => (opts.externalModules.flatMap (c.ambientExports p)).map .symbol]
  ++ (if opts.effectRoots then [fun p => ((c.files p).flatMap (c.effectRoots p)).map .node] else [])

/-- Adds to a surface what the items of a phase lead to. -/
def extend (opts : SurfaceOptions) (r : Surface) (phase : σ → List Item) :
    StateT σ Option Surface :=
  fun p => Surface.explore (c.next opts.privateMembersInternal) (phase p).reverse r p

/-- The surface of a program as seen when these files are processed, if exploring it
ends. -/
def collect? (files : List FileId) (opts : SurfaceOptions) : StateT σ Option Surface :=
  (c.phases files opts).foldlM (c.extend opts) {}

end Checker

/-- A program answers for itself. -/
def Program.checker : Checker Program where
  files p := p.source.fileIds
  exports := exportsOfFile
  ambientExports := ambientExports
  effectRoots := effectRoots
  moduleScope? p f := some (p.moduleOf f).scope
  visibleSymbols := visibleSymbols
  scopeKind p sc := (p.scope sc).kind
  fileOf p n := p.source.fileOf n
  symbol := Program.symbol
  declared? p n := p.declared[n]?
  referenced? p n := p.referenced[n]?
  typeInfo := typeInfo
  isIntrinsic := isIntrinsic
  typeMembers := typeMembers
  resolveAlias := Build.resolveAlias
  typeOfSymbol s := some <$> Build.typeOfSymbol s
  declaredTypeOf := Build.declaredTypeOf
  typeOfNode n := some <$> Build.typeOfNode n

/-- The surface of a program as seen when these files are processed. -/
def collectSurface (files : List FileId) (opts : SurfaceOptions) : Build Surface := fun p =>
  (Program.checker.collect? files opts p).getD ({}, p)

end Moniker
