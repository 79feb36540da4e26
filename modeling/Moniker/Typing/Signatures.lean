/-
# Signatures

Source: `program.Program.signatureOf`, `inferReturn`, `shapeSignatures`,
`signaturesOfBody`, `functionTypeOfSymbol`.

The signature of a function-like node: its type parameters, its parameters and
its result.  A parameter that is a pattern has no name; it gets a symbol of its
own each time.  A result that is not written down is that of the body, or the
union of what the body returns.
-/

import Moniker.Typing.Question

namespace Moniker
namespace Typing

variable (src : Source) (ask : Ask src)

/-- The expressions a function body returns, those of inner functions apart. -/
def returnedExpressions (body : NodeId) : List NodeId :=
  let isInner (n : NodeId) : Bool := n != body && isFunctionLike src n
  let visited := src.walk (fun n => !(isInner n || src.kind n == "return_statement")) body
  visited.filterMap fun n =>
    if !isInner n && src.kind n == "return_statement" then src.firstNamed? n else none

/-- The result of a function without a written result type. -/
def inferResult (fn : NodeId) : Query src [] TypeId := do
  match src.child? fn "body" with
  | none => Query.intrinsic "void"
  | some body =>
    if src.kind body != "statement_block" then ask.expression (some body)
    else
      let results ← (returnedExpressions src body).mapM fun e => ask.expression (some e)
      if results.isEmpty then Query.intrinsic "void" else Query.composite .union results

/-- The symbols of the type parameters of a declaration. -/
def typeParametersOf (p : Program) (fn : NodeId) : List SymbolId :=
  match src.child? fn "type_parameters" with
  | none => []
  | some tps =>
    (src.namedChildren tps).filterMap fun tp =>
      (src.child? tp "name").bind fun name => p.declared[name]?

/-- The pattern of a parameter, none for `this`. -/
def parameterPattern? (param : NodeId) : Option NodeId :=
  let pattern? :=
    if src.isKind param ["required_parameter", "optional_parameter"] then src.child? param "pattern"
    else some param
  pattern?.filter fun n => src.kind n != "this"

/-- The symbol of a parameter; a pattern gets a nameless one. -/
def parameterSymbol (fn pattern : NodeId) : Query src [] SymbolId := do
  let name? :=
    if src.kind pattern == "assignment_pattern" then src.child? pattern "left" else some pattern
  match (← Query.read fun p => name?.bind fun n => p.declared[n]?) with
  | some s => return s
  | none =>
    Query.newSymbol
      { name := "__param", traits := Traits.of [.parameter], decls := name?.toList,
        file := src.fileOf fn }

/-- The parameters of a function. -/
def parametersOf (fn : NodeId) : Query src [] (List SymbolId) := do
  let single ← Query.read fun p =>
    ((src.child? fn "parameter").bind fun n => p.declared[n]?).toList
  match src.child? fn "parameters" with
  | none => return single
  | some params =>
    let patterns := (src.namedChildren params).filterMap (parameterPattern? src)
    return single ++ (← patterns.mapM (parameterSymbol src fn))

/-- The signature of a function-like node. -/
def signatureOf (fn : NodeId) : Query src [] Signature := do
  let typeParameters ← Query.read fun p => typeParametersOf src p fn
  let parameters ← parametersOf src fn
  let result ←
    match src.child? fn "return_type" with
    | some ret => ask.meaning (some ret)
    | none =>
      if src.isKind fn ["function_type", "constructor_type"] then Query.unknown
      else inferResult src ask fn
  return { typeParameters, parameters, result }

/-- The type of a function-like node. It is known, without its signature, while
the signature is worked out. -/
def functionType (fn : NodeId) : Query src [] TypeId := do
  match ← Query.read fun p => p.functionTypes[fn]? with
  | some t => return t
  | none =>
    let owner ← Query.read fun p => (src.child? fn "name").bind fun n => p.declared[n]?
    let t ← Query.objectType owner none
    Query.learn fun p => { p with functionTypes := p.functionTypes.insert fn t }
    let sig ← signatureOf src ask fn
    Query.updateType t fun info => { info with signatures := [sig] }
    return t

/-- The call signatures a body declares. -/
def callSignatures (body : NodeId) : Query src [] (List Signature) :=
  ((src.namedChildren body).filter fun c => src.kind c == "call_signature").mapM
    (signatureOf src ask)

/-- The call signatures of all bodies of an interface. -/
def interfaceSignatures (sym : Symbol) : Query src [] (List Signature) := do
  let bodies := sym.decls.filterMap fun d => do
    let parent ← src.parent d
    if src.kind parent == "interface_declaration" then src.child? parent "body" else none
  return (← bodies.mapM (callSignatures src ask)).flatten

/-- The type of a function or method symbol; overloads give several signatures. -/
def functionTypeOfSymbol (s : SymbolId) : Query src [] TypeId := do
  let sym ← Query.read fun p => p.symbol s
  let single? : Option NodeId :=
    match sym.decls with
    | [d] => if src.field d == "name" then src.parent d else none
    | _ => none
  match single? with
  | some fn => ask.known (.function fn)
  | none =>
    let t ← Query.objectType (some s) none
    let functions := (sym.decls.filterMap src.parent).filter fun fn =>
      src.isKind fn ["method_definition", "method_signature", "abstract_method_signature",
        "function_declaration", "generator_function_declaration", "function_signature",
        "function", "function_expression", "generator_function"]
    let sigs ← functions.mapM (signatureOf src ask)
    Query.updateType t fun info => { info with signatures := sigs }
    return t

end Typing
end Moniker
