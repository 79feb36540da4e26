/-
# New names for declarations

Source: `mangler.SelectCandidates`, `Allocator.Allocate`, `domain`, `countLexical`,
`countMembers`, `countBase`, `heirsOf`, `Mangler.Plan`.

Candidates get new names in the order in which they were found, each from the pool
of its domain.  A name is taken if it is a keyword, reserved, unresolved in the
candidate's file, given out before (hard-private names apart), or the name of a
symbol that keeps it and could be confused with the candidate:

| domain | symbols looked at |
| --- | --- |
| lexical | those of the scope, the scopes around it and the scopes inside it |
| members | those of the owner, of its bases, and of what extends it |
| hard-private | the hard-private members of the class |

The current names of candidates never count, since all of them change.  So a
second pass over the result gives every symbol the name it has.
-/

import Moniker.Naming.Keywords
import Moniker.Naming.Minified
import Moniker.Surface.Classify

namespace Moniker

/-- The new name decided for a symbol. -/
structure Renaming where
  symbol : SymbolId
  decl : NodeId
  file : String
  pos : Nat
  oldName : String
  target : String
  domain : Domain
deriving Inhabited

namespace Renaming

/-- Does the symbol keep its name? -/
def isUnchanged (d : Renaming) : Bool := d.oldName == d.target

/-- The renaming as a request to rename the symbol at its declaration. -/
def toDirective (d : Renaming) : Directive :=
  { file := d.file, pos := d.pos, oldName := d.oldName, target := d.target }

end Renaming

namespace Analysis

/-- The symbols with a declaration that is public. -/
def blocked (a : Analysis) : List SymbolId :=
  (a.entries.filter fun e => e.visibility == .public_).map fun e => e.symbol

/-- The first entry of each symbol. -/
def firstEntries : List SymbolId → List Entry → List Entry
  | _, [] => []
  | seen, e :: rest =>
    if seen.contains e.symbol then firstEntries seen rest
    else e :: firstEntries (e.symbol :: seen) rest

/-- The entries whose symbols may be renamed: a symbol counts at its first entry,
and only if all its entries are candidates. -/
def candidates (a : Analysis) : List Entry := firstEntries a.blocked a.entries

/-- The candidates of the general pass. -/
def general (a : Analysis) : List Entry :=
  a.candidates.filter fun e => e.visibility == .private_

/-- The candidates of the pass over hard-private members. -/
def hardPrivates (a : Analysis) : List Entry :=
  a.candidates.filter fun e => e.visibility == .hardPrivate

end Analysis

/-- A pool of names and the fixed names it must avoid. -/
structure DomainNames where
  pool : NamePool
  fixed : List String
deriving Inhabited

/-- What has been given out so far. -/
structure Allocator where
  reserved : List String
  allocated : List String := []
  domains : Table Domain DomainNames := {}
  done : KeySet SymbolId := {}
  /-- The symbols that get new names. -/
  moving : KeySet SymbolId := {}
  /-- What extends a class or interface, once it has been asked for. -/
  heirs : Option (List (SymbolId × SymbolId)) := none
deriving Inhabited

namespace Allocator

/-- The names of the symbols that keep theirs. -/
def fixedNames (a : Allocator) (p : Program) (syms : List SymbolId) : List String :=
  (syms.filter fun s => !a.moving.contains s).map fun s => (p.symbol s).name

/-- The scopes inside a scope, at most `fuel` levels deep. -/
def scopesInside (p : Program) : Nat → ScopeId → List ScopeId
  | 0, _ => []
  | fuel + 1, s => (p.scope s).children.flatMap fun c => c :: scopesInside p fuel c

/-- The symbols a lexical name could be confused with. -/
def neighbours (p : Program) (s? : Option ScopeId) : List SymbolId :=
  match s? with
  | none => []
  | some s =>
    (p.outward s ++ scopesInside p (p.scopes.size + 1) s).flatMap fun sc => (p.scope sc).symbols

/-- The fixed names a lexical name could be confused with. -/
def lexicalNames (a : Allocator) (p : Program) (s? : Option ScopeId) : List String :=
  a.fixedNames p (neighbours p s?)

/-- The fixed names of own members, hard-private ones or the others. -/
def memberNames (a : Allocator) (p : Program) (hard : Bool) (owner : SymbolId) : List String :=
  a.fixedNames p ((p.membersOf owner ++ p.staticsOf owner).filter fun m =>
    (p.symbol m).has .hardPrivate == hard)

/-- The types a type extends, itself included, those in `seen` left out. -/
def basesWithin (p : Program) : Nat → TypeId → List TypeId → List TypeId
  | 0, _, seen => seen
  | fuel + 1, t, seen =>
    if p.isIntrinsic t || seen.contains t then seen
    else (p.typeInfo t).bases.foldl (fun seen b => basesWithin p fuel b seen) (t :: seen)

/-- The fixed names of the members of a base and of what it extends. -/
def baseNames (a : Allocator) (p : Program) (base : TypeId) : List String :=
  a.fixedNames p ((basesWithin p (p.types.size + 1) base []).flatMap p.typeMembers)

/-- The classes and interfaces with a base, each with the symbol of that base. -/
def findHeirs : Build (List (SymbolId × SymbolId)) := do
  let src ← Build.read Program.source
  let decls ← Build.read fun p => src.fileIds.flatMap p.declarations
  let owners ← Build.read fun p => decls.filter fun d =>
    let sym := p.symbol d.symbol
    (sym.has .classDecl || sym.has .interfaceDecl) && sym.decls.head? == some d.node
  let pairs ← owners.mapM fun d => do
    let t? ← Build.declaredTypeOf d.symbol
    Build.read fun p =>
      ((t?.map fun t => (p.typeInfo t).bases).getD []).filterMap fun b =>
        ((p.typeInfo b).symbol.filter fun s => s != d.symbol).map fun s => (s, d.symbol)
  return pairs.flatten

/-- The fixed names of a domain. -/
def domainFixed (a : Allocator) : Domain → Build (List String × Allocator)
  | .lexical s? => do return (← Build.read fun p => a.lexicalNames p s?, a)
  | .hardPrivate owner => do return (← Build.read fun p => a.memberNames p true owner, a)
  | .members owner => do
    let own ← Build.read fun p => a.memberNames p false owner
    let t? ← Build.declaredTypeOf owner
    let inherited ← Build.read fun p =>
      ((t?.map fun t => (p.typeInfo t).bases).getD []).flatMap (a.baseNames p)
    let heirs ←
      match a.heirs with
      | some h => pure h
      | none => findHeirs
    let below ← Build.read fun p =>
      (heirs.filter fun h => h.1 == owner).flatMap fun h => a.memberNames p false h.2
    return (own ++ inherited ++ below, { a with heirs := some heirs })

/-- The pool a domain starts with. -/
def startPool : Domain → NamePool
  | .hardPrivate _ => { head := "#" }
  | _ => {}

/-- The names of a domain, worked out the first time it comes up. -/
def namesOf (a : Allocator) (d : Domain) : Build (DomainNames × Allocator) := do
  match a.domains[d]? with
  | some names => return (names, a)
  | none =>
    let (fixed, a) ← a.domainFixed d
    return ({ pool := startPool d, fixed := fixed }, a)

/-- Is the domain one of hard-private members? -/
def isHardPrivate : Domain → Bool
  | .hardPrivate _ => true
  | _ => false

/-- The names a candidate cannot get. -/
def taken (a : Allocator) (names : DomainNames) (unresolved : List String) (d : Domain) :
    List String :=
  keywords ++ a.reserved ++ unresolved ++ (if isHardPrivate d then [] else a.allocated)
  ++ names.fixed

/-- Gives one candidate a name, unless its symbol has got one already. -/
def step (a : Allocator) (unresolved : FileId → List String) (e : Entry) :
    Build (Option Renaming × Allocator) := do
  if a.done.contains e.symbol then return (none, a)
  else
    let (names, a) ← a.namesOf e.domain
    let src ← Build.read Program.source
    let (name, pool) :=
      names.pool.drawAvoiding (a.taken names (unresolved (src.fileOf e.decl)) e.domain)
    let a := { a with
      done := a.done.insert e.symbol
      domains := a.domains.insert e.domain { names with pool := pool }
      allocated := if isHardPrivate e.domain then a.allocated else name :: a.allocated }
    let oldName ← Build.read fun p => (p.symbol e.symbol).name
    return (some
      { symbol := e.symbol, decl := e.decl, file := src.pathOf e.decl, pos := src.start e.decl,
        oldName := oldName, target := name, domain := e.domain }, a)

/-- Gives a candidate a name after those given out before. -/
def give (unresolved : FileId → List String) (given : List Renaming × Allocator) (e : Entry) :
    Build (List Renaming × Allocator) := do
  let (d?, a) ← given.2.step unresolved e
  return (given.1 ++ d?.toList, a)

/-- Gives names to candidates in order. -/
def allocate (a : Allocator) (candidates : List Entry) : Build (List Renaming × Allocator) := do
  let table ← Build.read fun p => p.source.fileIds.map p.unresolvedNames
  let unresolved (f : FileId) : List String := table.getD f.idx []
  let a := { a with moving := candidates.foldl (fun m e => m.insert e.symbol) a.moving }
  candidates.foldlM (give unresolved) ([], a)

end Allocator

/-- What a mangling pass may do. -/
structure MangleOptions extends SurfaceOptions where
  /-- Rename hard-private members too. -/
  hardPrivate : Bool := true
deriving Inhabited

/-- The outcome of a pass: every new name, in the order given out. -/
structure ManglePlan where
  renamings : List Renaming
  analysis : Analysis
deriving Inhabited

namespace ManglePlan

/-- The renamings that change a name. -/
def changed (plan : ManglePlan) : List Renaming := plan.renamings.filter fun d => !d.isUnchanged

end ManglePlan

/-- Gives every candidate of an analysis a new name, hard-private members in a pass of their
own. -/
def ManglePlan.ofAnalysis (opts : MangleOptions) (analysis : Analysis) : Build ManglePlan := do
  let start : Allocator := { reserved := opts.reserved }
  let general ← start.allocate analysis.general
  if opts.hardPrivate then
    let hard ← general.2.allocate analysis.hardPrivates
    return { renamings := general.1 ++ hard.1, analysis := analysis }
  else return { renamings := general.1, analysis := analysis }

/-- Analyses files and gives every candidate a new name. -/
def planMangle (files : List FileId) (opts : MangleOptions) : Build ManglePlan := do
  ManglePlan.ofAnalysis opts (← analyze files opts.toSurfaceOptions)

end Moniker
