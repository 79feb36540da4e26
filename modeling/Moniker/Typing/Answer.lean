/-
# Answering type questions

Source: `program.Program.TypeOfNode`, `TypeOfSymbol`, `DeclaredTypeOfSymbol`,
`checkExpr`.

`answerWithin` answers a question by its rule, asking further questions of itself
one level deeper.  An open question is never opened again, so the depth is bounded
by the number of questions there are times the depth of the tree, which
`depthBound` exceeds.

`Build.typeOfNode` is the question a user asks of any node.
-/

import Moniker.Typing.Expressions

namespace Moniker
namespace Typing

variable (src : Source) (ask : Ask src)

/-- Runs a rule with a question marked as open. -/
def whileOpen (q : Pending) (rule : Query src [] α) : Query src [] α := do
  Query.learn fun p => { p with pending := p.pending.insert q }
  let answer ← rule
  Query.learn fun p => { p with pending := p.pending.erase q }
  return answer

/-- Is the question open? -/
def isOpen (q : Pending) : Query src [] Bool := Query.read fun p => p.pending.contains q

/-- A type, or the unknown type. -/
def orUnknown (t? : Option TypeId) : Query src [] TypeId :=
  match t? with
  | some t => return t
  | none => Query.unknown

/-- Answers a question by its rule, from memory where it is remembered. -/
def answer (q : Question) : Query src [] (Option TypeId) := do
  match q with
  | .valueOf s =>
    match ← Query.read fun p => p.valueTypes[s]? with
    | some t => return some t
    | none =>
      if ← isOpen src (.valueOf s) then return some (← Query.unknown)
      else
        let t ← whileOpen src (.valueOf s) (valueType src ask s)
        Query.learn fun p => { p with valueTypes := p.valueTypes.insert s t }
        return some t
  | .declaredBy s =>
    match ← Query.read fun p => p.declaredTypes[s]? with
    | some t => return some t
    | none =>
      if ← isOpen src (.declaredBy s) then return some (← Query.unknown)
      else whileOpen src (.declaredBy s) (declaredType src ask s)
  | .meaning n =>
    match ← Query.read fun p => p.annotationTypes[n]? with
    | some t => return some t
    | none =>
      if ← isOpen src (.meaning n) then return some (← Query.unknown)
      else
        let t ← orUnknown src (← whileOpen src (.meaning n) (annotationType src ask n))
        Query.learn fun p => { p with annotationTypes := p.annotationTypes.insert n t }
        return some t
  | .expression n =>
    match ← Query.read fun p => p.expressionTypes[n]? with
    | some t => return some t
    | none =>
      if ← isOpen src (.expression n) then return some (← Query.unknown)
      else
        let t ← orUnknown src (← whileOpen src (.expression n) (expressionType src ask n))
        Query.learn fun p => { p with expressionTypes := p.expressionTypes.insertIfNew n t }
        Query.read fun p => p.expressionTypes[n]?
  | .position n =>
    match ← Query.read fun p => p.positionTypes[n]? with
    | some t => return some t
    | none =>
      if ← isOpen src (.position n) then return some (← Query.unknown)
      else
        let t ← whileOpen src (.position n) (positionType src ask n)
        Query.learn fun p => { p with positionTypes := p.positionTypes.insert n t }
        return some t
  | .context n => contextType src ask n
  | .function n => return some (← functionType src ask n)

/-- Answers questions, at most this many levels deep. -/
def answerWithin : Nat → Ask src
  | 0 => fun _ => do
    Query.cutOff
    return none
  | fuel + 1 => answer src (answerWithin fuel)

/-- A depth that no chain of questions reaches. -/
def depthBound (p : Program) : Nat :=
  (8 * (p.source.nodes.size + p.symbols.size) + 64) * (p.source.nodes.size + 4)

/-- Answers a question. -/
def solve : Ask src := fun q => do
  let bound ← Query.read depthBound
  answerWithin src bound q

/-- The kinds of nodes that are type expressions. -/
def typeExpressionKinds : List String :=
  ["type_annotation", "predefined_type", "type_identifier", "generic_type",
    "nested_type_identifier", "object_type", "union_type", "intersection_type", "function_type",
    "constructor_type", "array_type", "tuple_type", "parenthesized_type", "literal_type",
    "lookup_type", "index_type_query", "type_query", "conditional_type", "readonly_type",
    "this_type", "template_literal_type", "infer_type", "optional_type", "rest_type",
    "existential_type"]

end Typing

namespace Query

variable {src : Source}

/-- The type of a symbol's value. -/
def typeOfSymbol (s : SymbolId) : Query src [] TypeId := Ask.known (Typing.solve src) (.valueOf s)

/-- The type a symbol is the name of, if it names one. -/
def declaredTypeOf (s : SymbolId) : Query src [] (Option TypeId) :=
  Typing.solve src (.declaredBy s)

/-- The type of a name where it is declared. -/
def typeOfDeclaration (n : NodeId) : Query src [] TypeId :=
  Typing.declarationType src (Typing.solve src) n

/-- The type at a node: what a declared name declares or holds, what a type
expression means, what an expression is. -/
def typeOfNode (n : NodeId) : Query src [] TypeId := do
  match ← read fun p => p.declared[n]? with
  | some s =>
    let sym ← read fun p => p.symbol s
    if sym.isAny (Traits.of [.classDecl, .interfaceDecl, .aliasDecl, .typeParameter, .enumDecl])
    then
      match ← declaredTypeOf s with
      | some t => return t
      | none => typeOfDeclaration n
    else if sym.has .functionDecl && !sym.has .variableDecl then typeOfSymbol s
    else if sym.isAlias then typeOfSymbol s
    else typeOfDeclaration n
  | none =>
    match ← read fun p => (p.shapeAt[n]?).filter fun _ => src.kind n == "object_type" with
    | some shape => Ask.known (Typing.solve src) (.declaredBy shape)
    | none =>
      if Typing.typeExpressionKinds.contains (src.kind n) then
        Ask.known (Typing.solve src) (.meaning n)
      else if src.isKind n ["object_pattern", "array_pattern"] then
        Ask.known (Typing.solve src) (.position n)
      else Ask.known (Typing.solve src) (.expression n)

end Query

namespace Build

/-- The type of a symbol's value. -/
def typeOfSymbol (s : SymbolId) : Build TypeId := ask fun _ => Query.typeOfSymbol s

/-- The type a symbol is the name of, if it names one. -/
def declaredTypeOf (s : SymbolId) : Build (Option TypeId) := ask fun _ => Query.declaredTypeOf s

/-- The type at a node. -/
def typeOfNode (n : NodeId) : Build TypeId := ask fun _ => Query.typeOfNode n

end Build
end Moniker
