/-
# Type expressions

Source: `program.Program.typeFromTypeNode`, `qualifiedType`, `genericType`,
`lookupType`, `instantiate`.

What a type expression means.  A name means the type its symbol declares, and a
name the program does not know means a foreign type of that name.  A generic
alias is instantiated: the result shares the alias's own shape and records the
arguments.  Operators that are not worked out (`keyof`, conditional types, and
so on) become foreign types over their operands.
-/

import Moniker.Typing.Signatures

namespace Moniker
namespace Typing

variable (src : Source) (ask : Ask src)

/-- A reference to a generic alias with these arguments. -/
def instantiate (alias_ : SymbolId) (args : List TypeId) : Query src [] (Option TypeId) := do
  match ← ask.declaredBy (some alias_) with
  | none => return none
  | some base =>
    let info ← Query.read fun p => p.typeInfo base
    if info.kind == .intrinsic then return some base
    else
      return some (← Query.newType
        { info with alias? := some alias_, aliasArgs := args.map some })

/-- The member of a symbol that may be missing. -/
def memberOf? (p : Program) (owner? : Option SymbolId) (name : String) : Option SymbolId :=
  owner?.bind fun o => p.member? o name

theorem lists_of_memberOf? {owner? : Option SymbolId} {name : String} (p : Program) (m : SymbolId)
    (h : memberOf? p owner? name = some m) : p.Lists name m := by
  obtain ⟨o, -, h⟩ := Option.bind_eq_some_iff.mp h
  obtain ⟨t, -, h⟩ := Option.bind_eq_some_iff.mp h
  exact Program.lists_of_find? h

/-- The type a dotted type name means. -/
def qualifiedType (n : NodeId) (hn : src.kind n = "nested_type_identifier") :
    Query src [] TypeId := do
  match src.child? n "module", hname : src.child? n "name" with
  | some module, some name =>
    let head? ← Query.read fun p => p.referenced[module]?
    let owner? ←
      match head? with
      | some head => Query.resolveAlias head
      | none => pure none
    match ← linkMember name (src.text name) (fun p => memberOf? p owner? (src.text name))
        (.qualified n name hn hname) (Source.spells_text name) lists_of_memberOf? with
    | none => Query.foreign (src.text n) []
    | some member => ask.known (.declaredBy member)
  | _, _ => Query.unknown

/-- The types of the arguments of a generic type. -/
def typeArguments (n : NodeId) : Query src [] (List TypeId) :=
  match src.child? n "type_arguments" <|> src.firstOfKind? n ["type_arguments"] with
  | some args => (src.namedChildren args).mapM fun a => ask.meaning (some a)
  | none => return []

/-- The type of a declared generic with arguments. -/
def applyType (s : SymbolId) (args : List TypeId) : Query src [] (Option TypeId) := do
  let target? ← Query.resolveAlias s
  let aliasTarget? ← Query.read fun p => target?.filter fun t => (p.symbol t).has .aliasDecl
  match aliasTarget? with
  | some target => instantiate src ask target args
  | none =>
    match ← ask.declaredBy (some s) with
    | none => return some (← Query.unknown)
    | some base =>
      let info ← Query.read fun p => p.typeInfo base
      if info.kind == .intrinsic || args.isEmpty then return some base
      else
        let name ← Query.read fun p => (p.symbol s).name
        return some (← Query.newType
          { kind := info.kind, name := name, symbol := info.symbol, members := info.members,
            bases := info.bases, signatures := info.signatures, constraint := info.constraint,
            typeArgs := args })

/-- The type a generic type expression means. -/
def genericType (n : NodeId) : Query src [] (Option TypeId) := do
  let args ← typeArguments src ask n
  match src.child? n "name" with
  | none => return some (← Query.foreign "generic" args)
  | some name =>
    if src.kind name == "nested_type_identifier" then
      let base ← ask.meaning (some name)
      match ← Query.read fun p => (p.typeInfo base).symbol.filter fun _ => !p.isIntrinsic base with
      | none => return some (← Query.foreign (src.text name) (base :: args))
      | some s => applyType src ask s args
    else
      match ← Query.read fun p => p.referenced[name]? with
      | none => return some (← Query.foreign (src.text name) args)
      | some s => applyType src ask s args

/-- The literal that an index type is, if it is one. -/
def lookupKey? (index : NodeId) : Option NodeId :=
  (if src.kind index == "literal_type" then src.firstNamed? index else some index).filter fun key =>
    src.kind key == "string"

theorem isMemberUse_of_lookupKey? {src : Source} {n object index key : NodeId}
    {rest : List NodeId} (hn : src.kind n = "lookup_type")
    (hparts : src.namedChildren n = object :: index :: rest)
    (hkey : lookupKey? src index = some key) : src.IsMemberUse key := by
  have hindex : index ∈ src.namedChildren n := by simp [hparts]
  obtain ⟨hkey, hstring⟩ := Option.filter_eq_some_iff.mp hkey
  split at hkey
  · next hliteral =>
    exact .lookup index key (.inr (eq_of_beq hliteral)) (List.mem_of_find?_eq_some hkey)
      (eq_of_beq hstring)
  · rw [← Option.some.inj hkey] at hstring ⊢
    exact .lookup n index (.inl hn) (List.mem_filter.mp hindex).1 (eq_of_beq hstring)

/-- The type of `T["key"]`. -/
def lookupType (n : NodeId) (hn : src.kind n = "lookup_type") : Query src [] TypeId := do
  match hparts : src.namedChildren n with
  | object :: index :: _ =>
    let objectType ← ask.meaning (some object)
    let member? ←
      match hkey : lookupKey? src index with
      | some key =>
        let name := unquote (src.text key)
        linkMember key name (fun p => p.property? objectType name)
          (isMemberUse_of_lookupKey? hn hparts hkey) (Source.spells_unquote key)
          fun _ _ => Program.lists_of_property?
      | none => pure none
    match member? with
    | some m => ask.valueOf (some m)
    | none =>
      let indexType ← ask.meaning (some index)
      Query.foreign "lookup" [objectType, indexType]
  | _ => Query.unknown

/-- The type `this` means in a type expression. -/
def thisMeaning (n : NodeId) : Query src [] (Option TypeId) := do
  match src.ancestor? n ["class_declaration", "abstract_class_declaration", "class",
      "interface_declaration"] with
  | none => return some (← Query.unknown)
  | some decl =>
    match ← Query.read fun p => p.classAt[decl]? with
    | some cls => ask.declaredBy (some cls)
    | none =>
      match src.child? decl "name" with
      | some name => ask.declaredBy (← Query.read fun p => p.declared[name]?)
      | none => return some (← Query.unknown)

/-- The types of the elements of a tuple. -/
def tupleElement (c : NodeId) : Query src [] TypeId :=
  if src.isKind c ["tuple_parameter", "optional_tuple_parameter"] then
    ask.meaning (some ((src.child? c "type").getD c))
  else ask.meaning (some c)

/-- What a type expression means, worked out. -/
def annotationType (n : NodeId) : Query src [] (Option TypeId) := do
  match hkind : src.kind n with
  | "type_annotation" | "opting_type_annotation" | "omitting_type_annotation"
  | "asserts_annotation" | "parenthesized_type" | "readonly_type" | "optional_type" | "rest_type"
  | "constraint" | "default_type" => return some (← ask.meaning (src.firstNamed? n))
  | "predefined_type" => return some (← Query.intrinsic (src.text n))
  | "literal_type" | "template_literal_type" | "string" | "number" | "true" | "false" | "null"
  | "undefined" => return some (← Query.intrinsic "literal")
  | "type_identifier" =>
    match ← Query.read fun p => p.referenced[n]? with
    | some s => ask.declaredBy (some s)
    | none => return some (← Query.foreign (src.text n) [])
  | "nested_type_identifier" => return some (← qualifiedType src ask n hkind)
  | "generic_type" => genericType src ask n
  | "object_type" =>
    match ← Query.read fun p => p.shapeAt[n]? with
    | some shape => ask.declaredBy (some shape)
    | none => return some (← Query.unknown)
  | "union_type" =>
    let parts ← (src.namedChildren n).mapM fun c => ask.meaning (some c)
    return some (← Query.composite .union parts)
  | "intersection_type" =>
    let parts ← (src.namedChildren n).mapM fun c => ask.meaning (some c)
    return some (← Query.composite .intersection parts)
  | "function_type" | "constructor_type" => ask (.function n)
  | "array_type" =>
    let t ← Query.newType { kind := .array }
    let element ← ask.meaning (src.firstNamed? n)
    Query.updateType t fun info => { info with parts := [element] }
    return some t
  | "tuple_type" =>
    let t ← Query.newType { kind := .array, name := "tuple" }
    let elements ← (src.namedChildren n).mapM (tupleElement src ask)
    Query.updateType t fun info => { info with parts := elements }
    return some t
  | "lookup_type" => return some (← lookupType src ask n hkind)
  | "index_type_query" =>
    let operand ← ask.meaning (src.firstNamed? n)
    return some (← Query.foreign "keyof" [operand])
  | "type_query" =>
    match src.firstNamed? n with
    | some inner => return some (← ask.expression (some inner))
    | none => return some (← Query.unknown)
  | "conditional_type" =>
    let parts ← (src.namedChildren n).mapM fun c => ask.meaning (some c)
    return some (← Query.foreign "conditional" parts)
  | "infer_type" =>
    match src.firstOfKind? n ["type_identifier"] with
    | some name => ask.declaredBy (← Query.read fun p => p.declared[name]?)
    | none => return some (← Query.unknown)
  | "type_predicate" | "type_predicate_annotation" =>
    match src.child? n "type", src.firstOfKind? n ["type_predicate"] with
    | some inner, _ =>
      let t ← ask.meaning (some inner)
      return some (← Query.foreign "predicate" [t])
    | none, some inner => return some (← ask.meaning (some inner))
    | none, none => return some (← Query.intrinsic "boolean")
  | "this_type" => thisMeaning src ask n
  | _ => return some (← Query.unknown)

end Typing
end Moniker
