/-
# Expected types

Source: `program.Program.contextualType`, `returnContext`, `contextualParameterType`.

The type an expression is expected to have from the place it stands in: an
annotation, the parameter it is an argument for, the property or element it fills,
the variable it is assigned to, the result it is returned as.
-/

import Moniker.Typing.Values

namespace Moniker
namespace Typing

variable (src : Source) (ask : Ask src)

/-- The type a function is expected to return. -/
def returnContext (fn : NodeId) : Query src [] (Option TypeId) := do
  match src.child? fn "return_type" with
  | some ret => return some (← ask.meaning (some ret))
  | none =>
    if src.isKind fn ["arrow_function", "function", "function_expression"] then
      let sig? ← Query.firstSignature? (← ask (.context fn))
      return sig?.map fun sig => sig.result
    else return none

/-- The callee of a call or construction. -/
def calleeOf? (call : NodeId) : Option NodeId :=
  match src.kind call with
  | "call_expression" => src.child? call "function"
  | "new_expression" => src.child? call "constructor"
  | _ => none

/-- Calls of these have no signature. -/
def isSpecialCallee (callee : NodeId) : Bool := src.isKind callee ["super", "import"]

/-- The type expected of an argument. -/
def argumentContext (n args : NodeId) : Query src [] (Option TypeId) := do
  let callee? := ((src.parent args).bind (calleeOf? src)).filter fun c => !isSpecialCallee src c
  match callee? with
  | none => return none
  | some callee =>
    let sig? ← Query.firstSignature? (some (← ask.expression (some callee)))
    match sig?.bind fun sig => sig.parameters[namedIndex src args n]? with
    | some param => return some (← ask.valueOf (some param))
    | none => return none

/-- The type expected of the value of a property of an object literal. -/
def pairContext (n pair : NodeId) : Query src [] (Option TypeId) := do
  match src.parent pair with
  | none => return none
  | some object =>
    if src.field n != "value" then return none
    else
      let expected? ← ask (.context object)
      match ← Query.read fun p => do
          let t ← expected?
          let key ← src.child? pair "key"
          let name ← propertyKeyName? src key
          p.property? t name with
      | some m => return some (← ask.valueOf (some m))
      | none => return none

/-- The type annotation of a declaration whose value is `n`. -/
def annotationContext (n parent : NodeId) : Query src [] (Option TypeId) := do
  match src.child? parent "type" with
  | some ann =>
    if src.field n == "value" then return some (← ask.meaning (some ann)) else return none
  | none => return none

/-- The type an expression is expected to have, worked out. -/
def contextType (n : NodeId) : Query src [] (Option TypeId) := do
  match src.parent n with
  | none => return none
  | some parent =>
    match src.kind parent with
    | "parenthesized_expression" | "non_null_expression" => ask (.context parent)
    | "variable_declarator" | "public_field_definition" | "field_definition"
    | "required_parameter" | "optional_parameter" => annotationContext src ask n parent
    | "return_statement" =>
      match (src.ancestors parent).find? (isFunctionLike src) with
      | some fn => returnContext src ask fn
      | none => return none
    | "arrow_function" =>
      if src.field n == "body" then returnContext src ask parent else return none
    | "arguments" => argumentContext src ask n parent
    | "pair" => pairContext src ask n parent
    | "array" =>
      match ← ask (.context parent) with
      | some t => return some (← Query.elementType t (some (namedIndex src parent n)))
      | none => return none
    | "assignment_expression" =>
      if src.field n == "right" then return some (← ask.expression (src.child? parent "left"))
      else return none
    | "as_expression" | "satisfies_expression" =>
      match src.namedChildren parent with
      | first :: second :: rest =>
        if first == n then
          return some (← ask.meaning (some ((second :: rest).getLast?.getD second)))
        else return none
      | _ => return none
    | "ternary_expression" =>
      if src.field n == "consequence" || src.field n == "alternative" then ask (.context parent)
      else return none
    | "binary_expression" =>
      match src.child? parent "operator" with
      | some op => if src.isKind op ["||", "??"] then ask (.context parent) else return none
      | none => return none
    | _ => return none

end Typing
end Moniker
