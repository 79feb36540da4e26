/-
# Symbols, members and scopes

Source: `program.Symbol`, `SymbolFlags.String`, `memberTable.add`, `Scope.declare`,
`Scope.register`, `Scope.Own`.

A symbol is a named entity: a lexical binding, a member of a class, interface,
enum or object shape, or an alias that an import or export introduces.  What a
symbol is, is a set of `Trait`s, because declarations of one name merge: a
function may also be a namespace, a class also an interface.

Symbols live in two name spaces.  `Traits.value` are those a value name can
denote, `Traits.type` those a type name can denote; classes, enums, namespaces
and imports are in both.

A `Scope` lists the symbols declared in it and maps each name to the first
symbol registered under it, separately for the two name spaces.
-/

import Moniker.Syntax.Tree

namespace Moniker

/-- What a symbol can be. -/
inductive Trait where
  | variableDecl
  | blockScoped
  | functionDecl
  | classDecl
  | interfaceDecl
  | aliasDecl
  | enumDecl
  | enumMember
  | typeParameter
  | parameter
  | property
  | method
  | importBinding
  | namespaceImport
  | exportAlias
  | namespaceDecl
  | ambient
  | hardPrivate
  | softPrivate
  | static
  | shape
  | quoted
  | moduleItself
deriving DecidableEq, Inhabited

namespace Trait

/-- The place of a trait in a set of traits. -/
def bit : Trait → Nat
  | variableDecl => 0
  | blockScoped => 1
  | functionDecl => 2
  | classDecl => 3
  | interfaceDecl => 4
  | aliasDecl => 5
  | enumDecl => 6
  | enumMember => 7
  | typeParameter => 8
  | parameter => 9
  | property => 10
  | method => 11
  | importBinding => 12
  | namespaceImport => 13
  | exportAlias => 14
  | namespaceDecl => 15
  | ambient => 16
  | hardPrivate => 17
  | softPrivate => 18
  | static => 19
  | shape => 20
  | quoted => 21
  | moduleItself => 22

/-- The word a trait is shown by. -/
def name : Trait → String
  | variableDecl => "variable"
  | blockScoped => "blockScoped"
  | functionDecl => "function"
  | classDecl => "class"
  | interfaceDecl => "interface"
  | aliasDecl => "typeAlias"
  | enumDecl => "enum"
  | enumMember => "enumMember"
  | typeParameter => "typeParameter"
  | parameter => "parameter"
  | property => "property"
  | method => "method"
  | importBinding => "import"
  | namespaceImport => "namespaceImport"
  | exportAlias => "exportAlias"
  | namespaceDecl => "namespace"
  | ambient => "ambient"
  | hardPrivate => "hardPrivate"
  | softPrivate => "softPrivate"
  | static => "static"
  | shape => "shape"
  | quoted => "quoted"
  | moduleItself => "module"

/-- All traits, in the order of their places. -/
def all : List Trait :=
  [variableDecl, blockScoped, functionDecl, classDecl, interfaceDecl, aliasDecl, enumDecl,
    enumMember, typeParameter, parameter, property, method, importBinding, namespaceImport,
    exportAlias, namespaceDecl, ambient, hardPrivate, softPrivate, static, shape, quoted,
    moduleItself]

end Trait

/-- A set of traits, one bit each. -/
structure Traits where
  bits : Nat := 0
deriving DecidableEq, Inhabited

namespace Traits

/-- The set of the listed traits. -/
def of (ts : List Trait) : Traits := ⟨ts.foldl (fun acc t => acc ||| (1 <<< t.bit)) 0⟩

/-- The traits of either set. -/
def union (a b : Traits) : Traits := ⟨a.bits ||| b.bits⟩

/-- Is the trait in the set? -/
def has (a : Traits) (t : Trait) : Bool := a.bits.testBit t.bit

/-- Do the sets share a trait? -/
def meets (a b : Traits) : Bool := a.bits &&& b.bits != 0

/-- The set with one more trait. -/
def insert (a : Traits) (t : Trait) : Traits := ⟨a.bits ||| (1 <<< t.bit)⟩

/-- The set with one more trait on a condition. -/
def insertIf (a : Traits) (cond : Bool) (t : Trait) : Traits := if cond then a.insert t else a

theorem has_union (a b : Traits) (t : Trait) : (a.union b).has t = (a.has t || b.has t) :=
  Nat.testBit_or ..

/-- A trait put into a set does not bring other traits with it. -/
theorem has_insertIf {cond : Bool} {t u : Trait} (a : Traits) (h : t.bit ≠ u.bit) :
    (a.insertIf cond t).has u = a.has u := by
  cases cond with
  | false => rfl
  | true => simp [insertIf, insert, has, Nat.one_shiftLeft, h]

/-- The words of the traits in a set, divided by bars. -/
def describe (a : Traits) : String :=
  Text.join "|" ((Trait.all.filter a.has).map Trait.name)

/-- What a value name can denote. -/
def value : Traits :=
  of [.variableDecl, .functionDecl, .classDecl, .enumDecl, .importBinding, .namespaceImport,
    .namespaceDecl]

/-- What a type name can denote. -/
def type : Traits :=
  of [.classDecl, .interfaceDecl, .aliasDecl, .enumDecl, .typeParameter, .importBinding,
    .namespaceDecl]

/-- Bindings that stand for something declared elsewhere. -/
def aliasing : Traits := of [.importBinding, .exportAlias, .namespaceImport]

end Traits

/-- The identity of a symbol. -/
structure SymbolId where
  idx : Nat
deriving DecidableEq, Repr, Inhabited

instance : Numbered SymbolId := ⟨SymbolId.idx, fun ⟨_⟩ ⟨_⟩ h => congrArg SymbolId.mk h⟩

/-- The identity of a scope. -/
structure ScopeId where
  idx : Nat
deriving DecidableEq, Repr, Inhabited

/-- The identity of a member table. -/
structure TableId where
  idx : Nat
deriving DecidableEq, Repr, Inhabited

/-- The members of a class side, interface, enum, namespace or shape, each under
the name it is found by, in declaration order. -/
structure MemberTable where
  entries : List (String × SymbolId) := []
deriving Inhabited

namespace MemberTable

/-- The first member of a name. -/
def find? (t : MemberTable) (name : String) : Option SymbolId :=
  (t.entries.find? fun e => e.1 == name).map Prod.snd

/-- The members in order. -/
def symbols (t : MemberTable) : List SymbolId := t.entries.map Prod.snd

theorem mem_entries_of_find? {t : MemberTable} {name : String} {s : SymbolId}
    (h : t.find? name = some s) : (name, s) ∈ t.entries := by
  obtain ⟨e, he, rfl⟩ := Option.map_eq_some_iff.mp h
  have hname := @List.find?_some _ (fun e : String × SymbolId => e.1 == name) _ _ he
  rw [← eq_of_beq hname]
  exact List.mem_of_find?_eq_some he

/-- The table with one more member at its end. -/
def add (t : MemberTable) (name : String) (s : SymbolId) : MemberTable :=
  ⟨t.entries ++ [(name, s)]⟩

end MemberTable

/-- A symbol. -/
structure Symbol where
  name : String := ""
  traits : Traits := {}
  /-- Declaration name nodes in the order they were met; an anonymous shape has
  the shape itself. -/
  decls : List NodeId := []
  /-- The declaring scope, none for members. -/
  scope : Option ScopeId := none
  /-- What a member belongs to. -/
  owner : Option SymbolId := none
  members : Option TableId := none
  statics : Option TableId := none
  /-- The module an alias names, empty for an alias of something local. -/
  specifier : String := ""
  /-- The name an alias looks for: `default`, `*`, or an export. -/
  importedName : String := ""
  /-- The scope an alias of something local looks in. -/
  localScope : Option ScopeId := none
  /-- What an alias was found to stand for, once that has been asked. -/
  target : Option (Option SymbolId) := none
  /-- The types and expressions a class or interface extends or implements. -/
  heritage : List NodeId := []
  /-- The file of the first declaration. -/
  file : FileId := ⟨0⟩
deriving Inhabited

namespace Symbol

/-- Is this one of the things the symbol is? -/
def has (s : Symbol) (t : Trait) : Bool := s.traits.has t

/-- Is the symbol any of these? -/
def isAny (s : Symbol) (ts : Traits) : Bool := s.traits.meets ts

/-- Does the symbol stand for something declared elsewhere? -/
def isAlias (s : Symbol) : Bool := s.traits.meets Traits.aliasing

/-- The name of the shape of a type literal. -/
def typeLiteralName : String := "__type"

/-- The name of the shape of an object literal. -/
def objectLiteralName : String := "__object"

/-- Is the symbol the shape of an object literal? -/
def isObjectLiteral (s : Symbol) : Bool := s.has .shape && s.name == objectLiteralName

theorem isObjectLiteral_of_eq {s : Symbol} (htraits : s.traits = Traits.of [.shape])
    (hname : s.name = objectLiteralName) : s.isObjectLiteral = true := by
  have hshape : (Traits.of [.shape]).has .shape = true := by decide
  rw [isObjectLiteral, has, htraits, hname, hshape, beq_self_eq_true, Bool.true_and]

/-- A symbol as it is shown: name, traits and first declaration. -/
def describe (src : Source) (s : Symbol) : String :=
  match s.decls with
  | d :: _ =>
    s.name ++ "(" ++ s.traits.describe ++ "@" ++ src.pathOf d ++ ":" ++ toString (src.start d)
      ++ ")"
  | [] => s.name ++ "(" ++ s.traits.describe ++ ")"

end Symbol

/-- The kinds of lexical regions. -/
inductive ScopeKind where
  | global
  | ofModule
  | function
  | block
  | ofClass
deriving DecidableEq, Inhabited

/-- The word a kind of scope is shown by. -/
def ScopeKind.name : ScopeKind → String
  | global => "global"
  | ofModule => "module"
  | function => "function"
  | block => "block"
  | ofClass => "class"

/-- A lexical region that declares names. -/
structure Scope where
  kind : ScopeKind := .global
  parent : Option ScopeId := none
  node : Option NodeId := none
  children : List ScopeId := []
  /-- The symbols declared here, in order. -/
  symbols : List SymbolId := []
  /-- Value names and what they denote here. -/
  values : Table String SymbolId := {}
  /-- Type names and what they denote here. -/
  types : Table String SymbolId := {}
deriving Inhabited

namespace Scope

/-- What a name denotes in this scope itself, a value before a type. -/
def own? (s : Scope) (name : String) : Option SymbolId := s.values[name]? <|> s.types[name]?

/-- Makes a symbol known under its name; a name that is taken stays as it is. -/
def register (s : Scope) (id : SymbolId) (sym : Symbol) : Scope :=
  { s with
    values := if sym.isAny Traits.value then s.values.insertIfNew sym.name id else s.values
    types := if sym.isAny Traits.type then s.types.insertIfNew sym.name id else s.types }

/-- Lists a symbol and makes it known. -/
def declare (s : Scope) (id : SymbolId) (sym : Symbol) : Scope :=
  { s with symbols := s.symbols ++ [id] }.register id sym

end Scope
end Moniker
