/-
# Types that symbols declare

Source: `program.Program.DeclaredTypeOfSymbol`, `heritageType`, `aliasType`.

The type a symbol is the name of: the instance side of a class, an interface, an
alias, an enum, a namespace, a shape or a type parameter.  A value that is none
of these names no type.

A class or interface is known, without its bases, while its bases are worked out,
so it may refer to itself.
-/

import Moniker.Typing.Annotations

namespace Moniker
namespace Typing

variable (src : Source) (ask : Ask src)

/-- Remembers the type a symbol declares. -/
def setDeclaredType (s : SymbolId) (t : TypeId) : Query src [] Unit :=
  Query.learn fun p => { p with declaredTypes := p.declaredTypes.insert s t }

/-- Is the node a type name rather than an expression? -/
def isTypeReference (h : NodeId) : Bool :=
  src.isKind h ["type_identifier", "generic_type", "nested_type_identifier"]

/-- The type a class or interface inherits from by one clause. -/
def heritageType? (h : NodeId) : Query src [] (Option TypeId) := do
  if isTypeReference src h then return some (← ask.meaning (some h))
  else
    let side ← ask.expression (some h)
    let info ← Query.read fun p => p.typeInfo side
    match info.instance? with
    | some t => return some t
    | none => return if info.kind == .intrinsic then none else some side

/-- The type of a class or interface. -/
def nominalType (s : SymbolId) : Query src [] TypeId := do
  let sym ← Query.read fun p => p.symbol s
  let t ← Query.objectType (some s) sym.members
  setDeclaredType src s t
  let sigs ← interfaceSignatures src ask sym
  Query.updateType t fun info => { info with signatures := sigs }
  sym.heritage.forM fun h => do
    match ← heritageType? src ask h with
    | some base =>
      if base != t then Query.updateType t fun info => { info with bases := info.bases ++ [base] }
    | none => pure ()
  return t

/-- The type expressions whose type takes the name of an alias for them. -/
def namedByAlias : List String :=
  ["object_type", "union_type", "intersection_type", "function_type", "constructor_type",
    "tuple_type", "array_type", "conditional_type", "index_type_query", "lookup_type",
    "type_query"]

/-- The type an alias is declared as. -/
def aliasType (s : SymbolId) : Query src [] TypeId := do
  let sym ← Query.read fun p => p.symbol s
  match sym.decls.head?.bind src.parent with
  | none => Query.unknown
  | some decl =>
    match src.child? decl "value" with
    | none => Query.unknown
    | some value =>
      let t ← ask.meaning (some value)
      let info ← Query.read fun p => p.typeInfo t
      if namedByAlias.contains (src.kind value) && info.kind != .intrinsic
          && info.alias?.isNone then
        Query.updateType t fun info => { info with alias? := some s }
        let params ← Query.read fun p => typeParametersOf src p decl
        params.forM fun tp => do
          let arg ← ask.declaredBy (some tp)
          Query.updateType t fun info => { info with aliasArgs := info.aliasArgs ++ [arg] }
      return t

/-- The type of a type parameter. -/
def parameterType (s : SymbolId) : Query src [] TypeId := do
  let sym ← Query.read fun p => p.symbol s
  let t ← Query.newType { kind := .param, name := sym.name, symbol := some s }
  setDeclaredType src s t
  let constraint? := do
    let decl ← sym.decls.head?
    let parent ← src.parent decl
    let clause ← src.child? parent "constraint"
    src.firstNamed? clause
  match constraint? with
  | some inner =>
    let bound ← ask.meaning (some inner)
    Query.updateType t fun info => { info with constraint := some bound }
  | none => pure ()
  return t

/-- The type a symbol declares, worked out and remembered. -/
def declaredType (s : SymbolId) : Query src [] (Option TypeId) := do
  let sym ← Query.read fun p => p.symbol s
  if sym.has .importBinding || sym.has .exportAlias then
    match ← Query.resolveAlias s with
    | none => return none
    | some target =>
      match ← ask.declaredBy (some target) with
      | none => return none
      | some t =>
        setDeclaredType src s t
        return some t
  else if sym.has .classDecl || sym.has .interfaceDecl then return some (← nominalType src ask s)
  else if sym.has .aliasDecl then
    let t ← aliasType src ask s
    setDeclaredType src s t
    return some t
  else if sym.has .enumDecl || sym.has .namespaceDecl then
    let t ← Query.objectType (some s) sym.members
    setDeclaredType src s t
    return some t
  else if sym.has .shape then
    let t ← Query.objectType (some s) sym.members
    setDeclaredType src s t
    match sym.decls with
    | d :: _ =>
      let sigs ← callSignatures src ask d
      Query.updateType t fun info => { info with signatures := sigs }
    | [] => pure ()
    return some t
  else if sym.has .typeParameter then return some (← parameterType src ask s)
  else return none

end Typing
end Moniker
