/-
# Programs

Source: `program.Program`, `moduleInfo.addExport`, `Scope.LookupValue`,
`Scope.LookupType`, `Program.Declarations`, `Program.UnresolvedNames`,
`Program.EffectRoots`.

A `Program` is a set of files together with everything found out about them:
symbols, scopes, modules, which node declares or denotes which symbol, and the
types worked out so far.  It only grows: an entry, once made, is kept, so a type
that was asked for once is answered from memory the next time.

| field | says |
| --- | --- |
| `declared` | the symbol a name node declares |
| `referenced` | the symbol an identifier denotes |
| `memberAt` | the property a key or a member access denotes |
| `uses` | the nodes that denote a symbol, in the order they were linked |
| `scopeAt` | the scope a node introduces |
| `unresolved` | the identifiers that denote nothing in the program |
| `effects` | expressions whose values leave the program |
| `cut` | whether an answer was cut off at a bound, so that it may be wrong |
| `endless` | whether a search was begun that has no end |

Everything is numbered in the order in which it came up.
-/

import Moniker.Path
import Moniker.Symbol
import Moniker.Syntax.Language

namespace Moniker

section Arrays

variable {α : Type} {xs : Array α} {i j : Nat} {a d : α}

theorem getD_push : (xs.push a).getD i d = if i = xs.size then a else xs.getD i d := by
  simp only [Array.getD_eq_getD_getElem?, Array.getElem?_push]
  split <;> simp_all

theorem getD_modify (f : α → α) :
    (xs.modify i f).getD j d = if i = j ∧ j < xs.size then f (xs.getD j d) else xs.getD j d := by
  simp only [Array.getD_eq_getD_getElem?, Array.getElem?_modify]
  by_cases hij : i = j
  · subst hij
    by_cases hi : i < xs.size <;> simp [hi]
  · simp [hij]

theorem getD_of_size_le (h : xs.size ≤ i) : xs.getD i d = d := by
  simp [Array.getD_eq_getD_getElem?, Array.getElem?_eq_none h]

end Arrays

/-- The identity of a module. -/
structure ModuleId where
  idx : Nat
deriving DecidableEq, Repr, Inhabited

/-- The identity of a type. -/
structure TypeId where
  idx : Nat
deriving DecidableEq, Repr, Inhabited

instance : Numbered TypeId := ⟨TypeId.idx, fun ⟨_⟩ ⟨_⟩ h => congrArg TypeId.mk h⟩

/-- One import statement with the local symbols it introduces, in order. -/
structure Import where
  node : NodeId
  specifier : String
  typeOnly : Bool
  bindings : List SymbolId := []
deriving Inhabited

/-- Does the statement bind nothing? -/
def Import.isSideEffect (i : Import) : Bool := i.bindings.isEmpty

/-- A file as a module, or an ambient module that a file declares by name. -/
structure Module where
  name : String := ""
  file : FileId := ⟨0⟩
  scope : ScopeId := ⟨0⟩
  /-- A file without import or export statements: its top level is global. -/
  isScript : Bool := false
  isAmbient : Bool := false
  /-- Exports by name, in the order in which the names first came up. -/
  exports : List (String × SymbolId) := []
  /-- The modules whose exports are passed on. -/
  stars : List String := []
  imports : List Import := []
  /-- The symbol that a namespace import of the module stands for. -/
  symbol : SymbolId := ⟨0⟩
deriving Inhabited

namespace Module

/-- The export of a name, passed-on exports apart. -/
def ownExport? (m : Module) (name : String) : Option SymbolId :=
  (m.exports.find? fun e => e.1 == name).map Prod.snd

/-- Exports a symbol. A name exported before keeps its place and changes its
symbol. -/
def addExport (m : Module) (name : String) (s : SymbolId) : Module :=
  if m.exports.any fun e => e.1 == name then
    { m with exports := m.exports.map fun e => if e.1 == name then (name, s) else e }
  else { m with exports := m.exports ++ [(name, s)] }

end Module

/-- The forms of types. -/
inductive TypeKind where
  | intrinsic
  | object
  | union
  | intersection
  | param
  | array
deriving DecidableEq, Inhabited

/-- The word a form of type is shown by. -/
def TypeKind.name : TypeKind → String
  | intrinsic => "intrinsic"
  | object => "object"
  | union => "union"
  | intersection => "intersection"
  | param => "param"
  | array => "array"

/-- A call or construct signature. -/
structure Signature where
  typeParameters : List SymbolId := []
  parameters : List SymbolId := []
  result : TypeId := ⟨0⟩
deriving Inhabited

/-- A type. Objects cover interfaces, both sides of classes, type and object
literals, enums and callables. -/
structure TypeInfo where
  kind : TypeKind := .intrinsic
  /-- The name of an intrinsic type or of a type the program does not declare. -/
  name : String := ""
  /-- The class, interface, enum, function or shape the type is the type of. -/
  symbol : Option SymbolId := none
  /-- The type alias through which the type was reached, and its arguments. -/
  alias? : Option SymbolId := none
  aliasArgs : List (Option TypeId) := []
  /-- The arguments of a generic type that is not an alias. -/
  typeArgs : List TypeId := []
  /-- The parts of a union or intersection, or the elements of an array or tuple. -/
  parts : List TypeId := []
  signatures : List Signature := []
  constraint : Option TypeId := none
  bases : List TypeId := []
  /-- What the class side of a class constructs. -/
  instance? : Option TypeId := none
  members : Option TableId := none
deriving Inhabited

/-- A type question that is being worked on; asking it again meanwhile is
answered with the unknown type. -/
inductive Pending where
  | valueOf (s : SymbolId)
  | declaredBy (s : SymbolId)
  | expression (n : NodeId)
  | position (n : NodeId)
  | meaning (n : NodeId)
deriving DecidableEq, Inhabited

/-- The number of a question: five for each place. -/
def Pending.number : Pending → Nat
  | valueOf s => 5 * s.idx
  | declaredBy s => 5 * s.idx + 1
  | expression n => 5 * n.idx + 2
  | position n => 5 * n.idx + 3
  | meaning n => 5 * n.idx + 4

instance : Numbered Pending where
  number := Pending.number
  number_injective := by
    rintro (⟨⟨_⟩⟩ | ⟨⟨_⟩⟩ | ⟨⟨_⟩⟩ | ⟨⟨_⟩⟩ | ⟨⟨_⟩⟩) (⟨⟨_⟩⟩ | ⟨⟨_⟩⟩ | ⟨⟨_⟩⟩ | ⟨⟨_⟩⟩ | ⟨⟨_⟩⟩) h <;>
      grind [Pending.number]

/-- A program. -/
structure Program where
  source : Source := {}
  symbols : Array Symbol := #[]
  scopes : Array Scope := #[]
  tables : Array MemberTable := #[]
  modules : Array Module := #[]
  modulesByPath : Table String ModuleId := {}
  ambientByName : Table String ModuleId := {}
  declared : Table NodeId SymbolId := {}
  referenced : Table NodeId SymbolId := {}
  memberAt : Table NodeId SymbolId := {}
  /-- Names in export clauses that export a local declaration under its own name. -/
  specifiers : KeySet NodeId := {}
  uses : Table SymbolId (Array NodeId) := {}
  scopeAt : Table NodeId ScopeId := {}
  shapeAt : Table NodeId SymbolId := {}
  classAt : Table NodeId SymbolId := {}
  unresolved : Array NodeId := #[]
  effects : Array NodeId := #[]
  types : Array TypeInfo := #[]
  intrinsics : Table String TypeId := {}
  valueTypes : Table SymbolId TypeId := {}
  declaredTypes : Table SymbolId TypeId := {}
  annotationTypes : Table NodeId TypeId := {}
  functionTypes : Table NodeId TypeId := {}
  positionTypes : Table NodeId TypeId := {}
  expressionTypes : Table NodeId TypeId := {}
  pending : KeySet Pending := {}
  cut : Bool := false
  endless : Bool := false
deriving Inhabited

namespace Program

/-- The scope all files share. -/
def globalScope : ScopeId := ⟨0⟩

/-- The symbol of a number. -/
def symbol (p : Program) (s : SymbolId) : Symbol := p.symbols.getD s.idx default

/-- The scope of a number. -/
def scope (p : Program) (s : ScopeId) : Scope := p.scopes.getD s.idx default

/-- The module of a number. -/
def moduleInfo (p : Program) (m : ModuleId) : Module := p.modules.getD m.idx default

/-- The type of a number. -/
def typeInfo (p : Program) (t : TypeId) : TypeInfo := p.types.getD t.idx default

/-- The member table of a number. -/
def table (p : Program) (t : TableId) : MemberTable := p.tables.getD t.idx default

/-- The module a file is. File modules are numbered like the files. -/
def moduleOf (p : Program) (f : FileId) : Module := p.modules.getD f.idx default

/-- The file at a path. -/
def fileAt? (p : Program) (path : String) : Option FileId :=
  (p.modulesByPath[Path.clean path]?).map fun m => (p.moduleInfo m).file

/-- The members of a symbol in declaration order. -/
def membersOf (p : Program) (s : SymbolId) : List SymbolId :=
  ((p.symbol s).members.map fun t => (p.table t).symbols).getD []

/-- The static members of a class in declaration order. -/
def staticsOf (p : Program) (s : SymbolId) : List SymbolId :=
  ((p.symbol s).statics.map fun t => (p.table t).symbols).getD []

/-- The member of a symbol under a name. -/
def member? (p : Program) (s : SymbolId) (name : String) : Option SymbolId :=
  (p.symbol s).members.bind fun t => (p.table t).find? name

/-- The static member of a class under a name. -/
def static? (p : Program) (s : SymbolId) (name : String) : Option SymbolId :=
  (p.symbol s).statics.bind fun t => (p.table t).find? name

/-- The nodes that denote a symbol. -/
def references (p : Program) (s : SymbolId) : Array NodeId := p.uses.getD s #[]

/-- A scope and the scopes around it, innermost first, at most `fuel` of them. -/
def outwardWithin (p : Program) : Nat → ScopeId → List ScopeId
  | 0, _ => []
  | fuel + 1, s =>
    match (p.scope s).parent with
    | none => [s]
    | some outer => s :: outwardWithin p fuel outer

/-- A scope and the scopes around it, innermost first. -/
def outward (p : Program) (s : ScopeId) : List ScopeId := p.outwardWithin (p.scopes.size + 1) s

/-- The symbol a value name denotes when used in a scope. -/
def lookupValue? (p : Program) (s : ScopeId) (name : String) : Option SymbolId :=
  (p.outward s).findSome? fun c => (p.scope c).values[name]?

/-- The symbol a type name denotes when used in a scope. -/
def lookupType? (p : Program) (s : ScopeId) (name : String) : Option SymbolId :=
  (p.outward s).findSome? fun c => (p.scope c).types[name]?

/-- A declaration: a name node and what it declares. -/
structure Declaration where
  node : NodeId
  symbol : SymbolId
deriving Inhabited

/-- The declarations of a file in reading order. -/
def declarations (p : Program) (f : FileId) : List Declaration :=
  (p.source.nodesOf f).filterMap fun n => (p.declared[n]?).map fun s => ⟨n, s⟩

/-- The names of the ambient modules, sorted. -/
def ambientNames (p : Program) : List String :=
  Text.sort ((p.modules.toList.filter Module.isAmbient).map Module.name)

/-- The names used in a file that nothing in the program declares, sorted, each
once. -/
def unresolvedNames (p : Program) (f : FileId) : List String :=
  let own := p.unresolved.toList.filter fun n => p.source.fileOf n == f
  Text.sort (own.map p.source.text).eraseDups

/-- The expressions of a file whose values leave the program. -/
def effectRoots (p : Program) (f : FileId) : List NodeId :=
  p.effects.toList.filter fun n => p.source.fileOf n == f

end Program

namespace Program

variable (p : Program)

/-- The program with one more symbol. -/
def addSymbol (sym : Symbol) : Program := { p with symbols := p.symbols.push sym }

/-- The program with a symbol changed. -/
def modifySymbol (s : SymbolId) (f : Symbol → Symbol) : Program :=
  { p with symbols := p.symbols.modify s.idx f }

/-- The program with one more member table. -/
def addTable (tbl : MemberTable) : Program := { p with tables := p.tables.push tbl }

/-- The program with a member added to a table. -/
def addToTable (t : TableId) (name : String) (s : SymbolId) : Program :=
  { p with tables := p.tables.modify t.idx fun tbl => tbl.add name s }

/-- The program with one more scope. -/
def addScope (sc : Scope) : Program := { p with scopes := p.scopes.push sc }

/-- The program with a scope changed. -/
def modifyScope (s : ScopeId) (f : Scope → Scope) : Program :=
  { p with scopes := p.scopes.modify s.idx f }

/-- The program with a module changed. -/
def modifyModule (m : ModuleId) (f : Module → Module) : Program :=
  { p with modules := p.modules.modify m.idx f }

/-- The program with a node that introduces a scope. -/
def markScope (n : NodeId) (s : ScopeId) : Program := { p with scopeAt := p.scopeAt.insert n s }

/-- The program with a name node that declares a symbol. -/
def markDeclared (n : NodeId) (s : SymbolId) : Program :=
  { p with declared := p.declared.insert n s }

/-- The program with a node that has a shape. -/
def markShape (n : NodeId) (s : SymbolId) : Program := { p with shapeAt := p.shapeAt.insert n s }

/-- The program with a node that has a class. -/
def markClass (n : NodeId) (s : SymbolId) : Program := { p with classAt := p.classAt.insert n s }

/-- The program with a name that exports a local declaration under its own name. -/
def markSpecifier (n : NodeId) : Program := { p with specifiers := p.specifiers.insert n }

/-- The program with one more ambient module. -/
def addAmbient (m : Module) : Program :=
  { p with
    modules := p.modules.push m
    ambientByName := p.ambientByName.insert m.name ⟨p.modules.size⟩ }

/-- The program with one more node that denotes a symbol. -/
def addUse (n : NodeId) (s : SymbolId) : Program :=
  { p with uses := p.uses.alter s fun old => some ((old.getD #[]).push n) }

/-- The program with a node that denotes a property. -/
def markMember (n : NodeId) (m : SymbolId) : Program :=
  { p with memberAt := p.memberAt.insert n m }

variable {p}

theorem symbol_addSymbol {sym : Symbol} (s : SymbolId) :
    (p.addSymbol sym).symbol s = if s.idx = p.symbols.size then sym else p.symbol s := getD_push

@[simp] theorem symbols_size_addSymbol {sym : Symbol} :
    (p.addSymbol sym).symbols.size = p.symbols.size + 1 := Array.size_push ..

theorem symbol_modifySymbol {s : SymbolId} {f : Symbol → Symbol} (t : SymbolId) :
    (p.modifySymbol s f).symbol t =
      if s.idx = t.idx ∧ t.idx < p.symbols.size then f (p.symbol t) else p.symbol t :=
  getD_modify f

@[simp] theorem symbols_size_modifySymbol {s : SymbolId} {f : Symbol → Symbol} :
    (p.modifySymbol s f).symbols.size = p.symbols.size := Array.size_modify ..

theorem table_addTable {tbl : MemberTable} (t : TableId) :
    (p.addTable tbl).table t = if t.idx = p.tables.size then tbl else p.table t := getD_push

@[simp] theorem tables_size_addTable {tbl : MemberTable} :
    (p.addTable tbl).tables.size = p.tables.size + 1 := Array.size_push ..

theorem table_addToTable {t : TableId} {name : String} {s : SymbolId} (u : TableId) :
    (p.addToTable t name s).table u =
      if t.idx = u.idx ∧ u.idx < p.tables.size then (p.table u).add name s else p.table u :=
  getD_modify _

@[simp] theorem tables_size_addToTable {t : TableId} {name : String} {s : SymbolId} :
    (p.addToTable t name s).tables.size = p.tables.size := Array.size_modify ..

end Program

/-- A step that reads and extends a program. -/
abbrev Build := StateM Program

namespace Build

/-- Reads something off the program as it stands. -/
def read (f : Program → α) : Build α := do return f (← get)

/-- The program after a run. -/
def after (m : Build α) (p : Program) : Program := (m.run p).2

/-- The value of a run. -/
def value (m : Build α) (p : Program) : α := (m.run p).1

variable {p : Program}

@[simp] theorem after_pure (a : α) : (pure a : Build α).after p = p := rfl

@[simp] theorem value_pure (a : α) : (pure a : Build α).value p = a := rfl

@[simp] theorem after_bind (m : Build α) (f : α → Build β) :
    (m >>= f).after p = (f (m.value p)).after (m.after p) := rfl

@[simp] theorem value_bind (m : Build α) (f : α → Build β) :
    (m >>= f).value p = (f (m.value p)).value (m.after p) := rfl

@[simp] theorem after_read (f : Program → α) : (read f).after p = p := rfl

@[simp] theorem value_read (f : Program → α) : (read f).value p = f p := rfl

@[simp] theorem after_get : (get : Build Program).after p = p := rfl

@[simp] theorem value_get : (get : Build Program).value p = p := rfl

/-- Adds a symbol. -/
def newSymbol (sym : Symbol) : Build SymbolId := do
  let id : SymbolId := ⟨(← get).symbols.size⟩
  modify fun p => p.addSymbol sym
  return id

/-- Changes a symbol. -/
def updateSymbol (s : SymbolId) (f : Symbol → Symbol) : Build Unit :=
  modify fun p => p.modifySymbol s f

/-- Adds an empty member table. -/
def newTable : Build TableId := do
  let id : TableId := ⟨(← get).tables.size⟩
  modify fun p => p.addTable {}
  return id

/-- Adds a member to a table. -/
def addMember (t : TableId) (name : String) (s : SymbolId) : Build Unit :=
  modify fun p => p.addToTable t name s

/-- Adds a scope below `parent`. -/
def newScope (kind : ScopeKind) (parent : Option ScopeId) (node : Option NodeId) :
    Build ScopeId := do
  let id : ScopeId := ⟨(← get).scopes.size⟩
  modify fun p => p.addScope { kind := kind, parent := parent, node := node }
  match parent with
  | none => pure ()
  | some outer =>
    modify fun p => p.modifyScope outer fun o => { o with children := o.children ++ [id] }
  return id

/-- Changes a scope. -/
def updateScope (s : ScopeId) (f : Scope → Scope) : Build Unit :=
  modify fun p => p.modifyScope s f

/-- Says which scope a node introduces. -/
def setScopeAt (n : NodeId) (s : ScopeId) : Build Unit :=
  modify fun p => p.markScope n s

/-- Says which symbol a name node declares. -/
def setDeclared (n : NodeId) (s : SymbolId) : Build Unit :=
  modify fun p => p.markDeclared n s

/-- Records that a node denotes a symbol. -/
def addUse (n : NodeId) (s : SymbolId) : Build Unit :=
  modify fun p => p.addUse n s

/-- Changes a module. -/
def updateModule (m : ModuleId) (f : Module → Module) : Build Unit :=
  modify fun p => p.modifyModule m f

/-- Gives a symbol a member table unless it has one, and returns the table. -/
def ensureMembers (s : SymbolId) : Build TableId := do
  match (← get).symbol s |>.members with
  | some t => return t
  | none =>
    let t ← newTable
    updateSymbol s fun sym => { sym with members := some t }
    return t

/-- Gives a class a table of static members unless it has one, and returns it. -/
def ensureStatics (s : SymbolId) : Build TableId := do
  match (← get).symbol s |>.statics with
  | some t => return t
  | none =>
    let t ← newTable
    updateSymbol s fun sym => { sym with statics := some t }
    return t

end Build
end Moniker
