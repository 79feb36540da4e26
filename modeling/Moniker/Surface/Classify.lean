/-
# Public and private declarations

Source: `analyzer.Classifier.Classify`, `overrides`, `annotatedPublic`,
`CollectScopedSymbols`, `scopeDepth`, `ownerDepth`, `Analyzer.Analyze`.

Every declaration of a file gets a class and the rule that decided it.  The rules
are tried in order; the first that applies counts.

| rule | class |
| --- | --- |
| alias, global, ambient, exported, quoted, constructor, reserved | public |
| parameter property, object literal | public |
| hard-private | hard-private |
| related: on the public surface | public |
| override: a base has a member of that name | public |
| public-annotation: annotated with a type on the surface | public |
| internal: none of these | private |

What there is to classify, and what else the rules look at, is asked of a `Classifier`.
-/

import Moniker.Surface.Reach

namespace Moniker

/-- Where names must differ: a lexical scope with its surroundings, the members of
an owner, or the hard-private members of a class. -/
inductive Domain where
  | lexical (scope : Option ScopeId)
  | members (owner : SymbolId)
  | hardPrivate (owner : SymbolId)
deriving DecidableEq, Inhabited

/-- The number of a domain: three for each scope and owner, after the one outside all scopes. -/
def Domain.number : Domain → Nat
  | lexical none => 0
  | lexical (some s) => 3 * s.idx + 1
  | members o => 3 * o.idx + 2
  | hardPrivate o => 3 * o.idx + 3

instance : Numbered Domain where
  number := Domain.number
  number_injective := by
    rintro (⟨_ | ⟨⟨_⟩⟩⟩ | ⟨⟨_⟩⟩ | ⟨⟨_⟩⟩) (⟨_ | ⟨⟨_⟩⟩⟩ | ⟨⟨_⟩⟩ | ⟨⟨_⟩⟩) h <;> grind [Domain.number]

/-- The word a domain is shown by. -/
def Domain.name : Domain → String
  | lexical _ => "lexical"
  | members _ => "members"
  | hardPrivate _ => "private"

/-- Whether a declaration keeps its name. -/
inductive Visibility where
  | public_
  | private_
  | hardPrivate
deriving DecidableEq, Inhabited

/-- The word a class is shown by. -/
def Visibility.name : Visibility → String
  | public_ => "public"
  | private_ => "private"
  | hardPrivate => "hard-private"

/-- The rule that decided a class. -/
inductive Reason where
  | aliasing
  | global
  | ambient
  | exported
  | quoted
  | constructorName
  | reserved
  | parameterProperty
  | objectLiteral
  | hardPrivate
  | related
  | overriding
  | publicAnnotated
  | internal
deriving DecidableEq, Inhabited

namespace Reason

/-- The word a rule is shown by. -/
def name : Reason → String
  | aliasing => "alias"
  | global => "global"
  | ambient => "ambient"
  | exported => "exported"
  | quoted => "quoted"
  | constructorName => "constructor"
  | reserved => "reserved"
  | parameterProperty => "parameter-property"
  | objectLiteral => "object-literal"
  | hardPrivate => "hard-private"
  | related => "related"
  | overriding => "override"
  | publicAnnotated => "public-annotation"
  | internal => "internal"

/-- All rules. -/
def all : List Reason :=
  [aliasing, global, ambient, exported, quoted, constructorName, reserved, parameterProperty,
    objectLiteral, hardPrivate, related, overriding, publicAnnotated, internal]

/-- The class a rule decides. -/
def visibility : Reason → Visibility
  | hardPrivate => .hardPrivate
  | internal => .private_
  | _ => .public_

end Reason

/-- A declaration as a file lists it. -/
structure ListedSymbol where
  symbol : SymbolId
  decl : NodeId
  /-- The scope it is declared in, if it is no member. -/
  scope : Option ScopeId := none
  /-- What it is a member of. -/
  owner : Option SymbolId := none
deriving Inhabited

/-- A declaration with its domain. -/
structure ScopedSymbol extends ListedSymbol where
  exported : Bool
  depth : Nat
  domain : Domain
deriving Inhabited

/-- A declaration and the rule that decided its class. -/
structure Entry extends ScopedSymbol where
  reason : Reason
deriving Inhabited

/-- The class of a declaration. -/
def Entry.visibility (e : Entry) : Visibility := e.reason.visibility

/-- The declarations of one file. -/
structure FileAnalysis where
  file : FileId
  entries : List Entry
deriving Inhabited

/-- The declarations of some files and the surface that decided about them. -/
structure Analysis where
  files : List FileAnalysis
  surface : Surface
deriving Inhabited

/-- What declarations are classified through: a checker that can list them and knows the
nodes around them. -/
structure Classifier (σ : Type) extends Checker σ where
  /-- The declarations of a file in reading order. -/
  declarations : σ → FileId → List ListedSymbol
  /-- A scope and the scopes around it. -/
  outward : σ → ScopeId → List ScopeId
  parent : σ → NodeId → Option NodeId
  child? : σ → NodeId → String → Option NodeId
  property? : σ → TypeId → String → Option SymbolId

namespace Classifier

variable (c : Classifier σ)

section Listing

variable (p : σ)

/-- How many scopes lie around a scope. -/
def scopeDepth (s? : Option ScopeId) : Nat := (s?.map fun s => (c.outward p s).length - 1).getD 0

/-- How deep the members of an owner lie. -/
def ownerDepth (owner : SymbolId) : Nat :=
  match (c.symbol p owner).scope with
  | some s => c.scopeDepth p (some s) + 1
  | none => 1

/-- The declarations of a file with their domains. -/
def scopedSymbols (f : FileId) : List ScopedSymbol :=
  let exported := c.exports p f
  (c.declarations p f).map fun d =>
    let (domain, depth) : Domain × Nat :=
      match d.owner with
      | some owner =>
        (if (c.symbol p d.symbol).has .hardPrivate then .hardPrivate owner else .members owner,
          c.ownerDepth p owner)
      | none => (.lexical d.scope, c.scopeDepth p d.scope)
    { d with exported := exported.contains d.symbol, depth := depth, domain := domain }

/-- The first rule that needs no types and decides about a declaration. -/
def plainReason? (reserved : List String) (rec : ScopedSymbol) : Option Reason :=
  let sym := c.symbol p rec.symbol
  let inGlobal := (rec.scope.map fun s => c.scopeKind p s == .global).getD false
  let ownerAmbient := (rec.owner.map fun o => (c.symbol p o).has .ambient).getD false
  let ownerLiteral := (rec.owner.map fun o => (c.symbol p o).isObjectLiteral).getD false
  if sym.isAlias then some .aliasing
  else if inGlobal then some .global
  else if sym.has .ambient || ownerAmbient then some .ambient
  else if rec.exported then some .exported
  else if sym.has .quoted then some .quoted
  else if rec.owner.isSome && sym.name == "constructor" then some .constructorName
  else if reserved.contains sym.name then some .reserved
  else if sym.has .parameter && sym.has .property then some .parameterProperty
  else if ownerLiteral then some .objectLiteral
  else if sym.has .hardPrivate then some .hardPrivate
  else none

end Listing

/-- Is the type on the surface? Intrinsic types never are. -/
def hasType (r : Surface) (t? : Option TypeId) (p : σ) : Bool :=
  t?.any fun t => !c.isIntrinsic p t && r.types.contains t

/-- Is the symbol on the surface, by itself, by its type or by a declaration? -/
def isRelated (r : Surface) (s : SymbolId) : StateM σ Bool := do
  if r.symbols.contains s then return true
  else
    let t? ← c.typeOfSymbol s
    let p ← get
    return c.hasType r t? p || (c.symbol p s).decls.any fun d => r.nodes.contains d

/-- Has a base of the owner a member of the symbol's name on its side? -/
def overrides (s owner : SymbolId) : StateM σ Bool := do
  let sym := c.symbol (← get) s
  let side? ← if sym.has .static then c.typeOfSymbol owner else c.declaredTypeOf owner
  let p ← get
  return side?.any fun t => (c.typeInfo p t).bases.any fun b => (c.property? p b sym.name).isSome

/-- Is one of these type expressions a type on the surface? -/
def anyOnSurface (r : Surface) : List NodeId → StateM σ Bool
  | [] => return false
  | n :: rest => do
    let t? ← c.typeOfNode n
    if c.hasType r t? (← get) then return true else anyOnSurface r rest

/-- The type expressions that a declaration is annotated with. -/
def annotations (p : σ) (decl : NodeId) : List NodeId :=
  match c.parent p decl with
  | none => []
  | some parent => (c.child? p parent "type").toList ++ (c.child? p parent "return_type").toList

/-- Is the declaration annotated with a type on the surface? -/
def annotatedPublic (r : Surface) (decl : NodeId) : StateM σ Bool := do
  c.anyOnSurface r (c.annotations (← get) decl)

/-- The rule that decides about a declaration. -/
def classify (r : Surface) (reserved : List String) (rec : ScopedSymbol) : StateM σ Reason := do
  match c.plainReason? (← get) reserved rec with
  | some reason => return reason
  | none =>
    if ← c.isRelated r rec.symbol then return .related
    else
      match rec.owner with
      | none => return .internal
      | some owner =>
        if ← c.overrides rec.symbol owner then return .overriding
        else if ← c.annotatedPublic r rec.decl then return .publicAnnotated
        else return .internal

/-- Decides about a declaration. -/
def entry (r : Surface) (reserved : List String) (rec : ScopedSymbol) : StateM σ Entry := do
  return { rec with reason := ← c.classify r reserved rec }

/-- Decides about the declarations of a file. -/
def analyzeFile (r : Surface) (reserved : List String) (f : FileId) : StateM σ FileAnalysis := do
  let entries ← (c.scopedSymbols (← get) f).mapM (c.entry r reserved)
  return { file := f, entries := entries }

/-- Decides about every declaration of some files, given the surface. -/
def analyzeWith (r : Surface) (reserved : List String) (files : List FileId) :
    StateM σ Analysis := do
  return { files := ← files.mapM (c.analyzeFile r reserved), surface := r }

/-- Decides about every declaration of some files, if exploring the surface ends. -/
def analyze? (files : List FileId) (opts : SurfaceOptions) : StateT σ Option Analysis := fun p =>
  (c.collect? files opts p).map fun out => (c.analyzeWith out.1 opts.reserved files).run out.2

end Classifier

/-- A program answers for itself. -/
def Program.classifier : Classifier Program where
  toChecker := checker
  declarations p f := (p.declarations f).map fun d =>
    { symbol := d.symbol, decl := d.node, scope := (p.symbol d.symbol).scope,
      owner := (p.symbol d.symbol).owner }
  outward := outward
  parent p n := p.source.parent n
  child? p n field := p.source.child? n field
  property? := property?

/-- Decides about every declaration of some files. -/
def analyze (files : List FileId) (opts : SurfaceOptions) : Build Analysis := do
  Program.classifier.analyzeWith (← collectSurface files opts) opts.reserved files

/-- Counts of an analysis. -/
structure Summary where
  files : Nat
  symbols : Nat
  isPublic : Nat
  candidates : Nat
  hardPrivate : Nat
  /-- How often each rule decided, rules that never did left out. -/
  byReason : List (String × Nat)
deriving Inhabited

namespace Analysis

/-- All declarations in order. -/
def entries (a : Analysis) : List Entry := a.files.flatMap FileAnalysis.entries

/-- How many declarations are of a class. -/
def countOf (a : Analysis) (v : Visibility) : Nat :=
  (a.entries.filter fun e => e.visibility == v).length

/-- The counts of an analysis. -/
def summary (a : Analysis) : Summary :=
  { files := a.files.length
    symbols := a.entries.length
    isPublic := a.countOf .public_
    candidates := a.countOf .private_
    hardPrivate := a.countOf .hardPrivate
    byReason := (Reason.all.map fun r =>
      (r.name, (a.entries.filter fun e => e.reason == r).length)).filter fun c => c.2 != 0 }

end Analysis

/-- The counts as a record. -/
def Summary.toValue (s : Summary) : Value :=
  .record [("files", .int s.files), ("symbols", .int s.symbols), ("public", .int s.isPublic),
    ("candidates", .int s.candidates), ("hardPrivate", .int s.hardPrivate),
    ("byReason", .record (s.byReason.map fun c => (c.1, .int c.2)))]

end Moniker
