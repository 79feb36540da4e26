/-
# Types of values

Source: `program.Program.computeTypeOfSymbol`, `typeOfDeclName`, `computePositionType`,
`classStaticType`, `constructorOf`.

The type of a symbol's value and of what flows into a binding position: a
declared name, a parameter, or a part of a destructuring pattern.  A parameter
without annotation or default takes its type from the signature that its function
is expected to have.
-/

import Moniker.Typing.Declared

namespace Moniker
namespace Typing

variable (src : Source) (ask : Ask src)

/-- The constructor of a class. -/
def constructorOf? (p : Program) (cls : SymbolId) : Option NodeId :=
  (p.symbol cls).decls.findSome? fun d => do
    let node := if src.field d == "name" then (src.parent d).getD d else d
    if p.classAt[node]? == some cls then
      let body ← src.child? node "body"
      (src.namedChildren body).find? fun m =>
        src.kind m == "method_definition"
        && match src.child? m "name" with
          | some name => src.text name == "constructor"
          | none => false
    else none

/-- The class side of a class: its static members and what it constructs. -/
def classSideType (s : SymbolId) : Query src [] TypeId := do
  let sym ← Query.read fun p => p.symbol s
  let t ← Query.objectType (some s) sym.statics
  let inst ← ask.known (.declaredBy s)
  Query.updateType t fun info => { info with instance? := some inst }
  (sym.heritage.filter fun h => !isTypeReference src h).forM fun h => do
    let base ← ask.expression (some h)
    if !(← Query.read fun p => p.isIntrinsic base) then
      Query.updateType t fun info => { info with bases := info.bases ++ [base] }
  match ← Query.read fun p => constructorOf? src p s with
  | some ctor =>
    let sig ← signatureOf src ask ctor
    Query.updateType t fun info => { info with signatures := [{ sig with result := inst }] }
  | none => pure ()
  return t

/-- The type of a name in the place where it is declared. -/
def declarationType (n : NodeId) : Query src [] TypeId := do
  match src.parent n with
  | none => Query.unknown
  | some parent =>
    let otherwise : Query src [] TypeId :=
      if src.isKind n ["object", "arrow_function", "function_expression", "function", "class"] then
        ask.expression (some n)
      else ask.known (.position n)
    match src.kind parent with
    | "property_signature" | "public_field_definition" | "field_definition" =>
      match src.child? parent "type", src.child? parent "value" with
      | some ann, _ => ask.meaning (some ann)
      | none, some v => ask.expression (some v)
      | none, none => Query.unknown
    | "method_signature" | "method_definition" | "abstract_method_signature" =>
      if src.field n == "name" then ask.known (.function parent) else otherwise
    | "pair" =>
      match src.child? parent "value" with
      | some v => if src.field n == "key" then ask.expression (some v) else otherwise
      | none => otherwise
    | "object" =>
      if src.kind n == "shorthand_property_identifier" then
        ask.valueOf (← Query.read fun p => p.referenced[n]?)
      else otherwise
    | "enum_body" | "enum_assignment" => Query.intrinsic "number"
    | "export_statement" => ask.expression (some n)
    | "catch_clause" => Query.unknown
    | _ => otherwise

/-- The type of a symbol's value, worked out. -/
def valueType (s : SymbolId) : Query src [] TypeId := do
  let sym ← Query.read fun p => p.symbol s
  if sym.isAlias then
    match ← Query.resolveAlias s with
    | some target => ask.valueOf (some target)
    | none => Query.unknown
  else if sym.has .moduleItself then Query.objectType (some s) sym.members
  else if sym.has .classDecl then classSideType src ask s
  else if sym.has .enumDecl || sym.has .namespaceDecl || sym.has .shape then
    ask.known (.declaredBy s)
  else if sym.has .enumMember then Query.intrinsic "number"
  else if sym.has .functionDecl || (sym.has .method && !sym.has .property) then
    functionTypeOfSymbol src ask s
  else if sym.has .variableDecl || sym.has .parameter || sym.has .property then
    match sym.decls with
    | d :: _ => declarationType src ask d
    | [] => Query.unknown
  else Query.unknown

/-- The type of a parameter from the signature its function is expected to have. -/
def contextualParameterType (param : NodeId) : Query src [] TypeId := do
  let slot? : Option (NodeId × Nat) := do
    let parent ← src.parent param
    if src.kind parent == "arrow_function" then return (parent, 0)
    else if src.kind parent == "formal_parameters" then
      let fn ← src.parent parent
      return (fn, namedIndex src parent param)
    else none
  match slot?.filter fun s =>
      src.isKind s.1 ["arrow_function", "function", "function_expression"] with
  | none => Query.unknown
  | some (fn, idx) =>
    let sig? ← Query.firstSignature? (← ask (.context fn))
    match sig?.bind fun sig => sig.parameters[idx]? with
    | some param => ask.valueOf (some param)
    | none => Query.unknown

/-- The type of a part of an object pattern: the property it takes apart. -/
def patternPropertyType (pattern : NodeId) (name? : Option String) : Query src [] TypeId := do
  match name? with
  | none => Query.unknown
  | some name =>
    let whole ← ask.known (.position pattern)
    typeOfProperty ask whole name

/-- The type of what flows into a binding position, worked out. -/
def positionType (n : NodeId) : Query src [] TypeId := do
  match src.parent n with
  | none => Query.unknown
  | some parent =>
    match src.kind parent with
    | "variable_declarator" =>
      if src.field n != "name" then Query.unknown
      else
        match src.child? parent "type", src.child? parent "value" with
        | some ann, _ => ask.meaning (some ann)
        | none, some v => ask.expression (some v)
        | none, none => Query.unknown
    | "required_parameter" | "optional_parameter" =>
      match src.child? parent "type", src.child? parent "value" with
      | some ann, _ => ask.meaning (some ann)
      | none, some v => ask.expression (some v)
      | none, none => contextualParameterType src ask parent
    | "formal_parameters" => contextualParameterType src ask n
    | "arrow_function" =>
      if src.field n == "parameter" then contextualParameterType src ask n else Query.unknown
    | "object_pattern" => patternPropertyType src ask parent (propertyKeyName? src n)
    | "pair_pattern" =>
      match src.parent parent, src.child? parent "key" with
      | some pattern, some key =>
        if src.field n == "value" then patternPropertyType src ask pattern (propertyKeyName? src key)
        else Query.unknown
      | _, _ => Query.unknown
    | "object_assignment_pattern" =>
      match src.parent parent with
      | some pattern =>
        if src.kind n == "shorthand_property_identifier_pattern" then
          patternPropertyType src ask pattern (some (src.text n))
        else ask.known (.position parent)
      | none => ask.known (.position parent)
    | "assignment_pattern" | "rest_pattern" => ask.known (.position parent)
    | "array_pattern" =>
      let whole ← ask.known (.position parent)
      Query.elementType whole (some (namedIndex src parent n))
    | "for_in_statement" =>
      match src.child? parent "right" with
      | some right =>
        if src.hasToken parent "of" then
          let whole ← ask.expression (some right)
          Query.elementType whole none
        else Query.intrinsic "string"
      | none => Query.intrinsic "string"
    | _ => Query.unknown

end Typing
end Moniker
