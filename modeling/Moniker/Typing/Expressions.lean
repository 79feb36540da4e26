/-
# Types of expressions

Source: `program.Program.computeExprType`, `checkArguments`, `memberAccess`,
`privateMember`, `thisType`, `checkObjectLiteral`.

The type of an expression.  On the way, member accesses and the keys of object
literals are linked to the properties they denote.

An object literal that is expected to have some type takes its properties from
there: a key the expected type has denotes that property, and only the other keys
declare members of the literal's own shape.
-/

import Moniker.Binding.Declare
import Moniker.Typing.Context

namespace Moniker
namespace Typing

variable (src : Source) (ask : Ask src)

/-- Works out the types of the arguments of a call. -/
def checkArguments (call : NodeId) : Query src [] Unit :=
  match src.child? call "arguments" with
  | some args => (src.namedChildren args).forM fun a => do let _ ← ask.expression (some a)
  | none => pure ()

/-- The member of that name that the nearest enclosing class with one declares. -/
def privateMember? (p : Program) (n : NodeId) (name : String) : Option SymbolId :=
  (src.ancestors n).findSome? fun cur => do
    let cls ← p.classAt[cur]?
    p.member? cls name <|> p.static? cls name

/-- The member that a member access denotes, given the type of the object. -/
def accessed? (p : Program) (object : TypeId) (n prop : NodeId) : Option SymbolId :=
  if src.kind prop == "private_property_identifier" then privateMember? src p n (src.text prop)
  else p.property? object (src.text prop)

variable {src} in
theorem lists_of_accessed? {object : TypeId} {n prop : NodeId} (p : Program) (m : SymbolId)
    (h : accessed? src p object n prop = some m) : p.Lists (src.text prop) m := by
  unfold accessed? at h
  split at h
  · obtain ⟨cur, -, h⟩ := List.exists_of_findSome?_eq_some h
    obtain ⟨cls, -, h⟩ := Option.bind_eq_some_iff.mp h
    rw [Option.orElse_eq_orElse, Option.orElse_eq_or, Option.or_eq_some_iff] at h
    rcases h with h | ⟨-, h⟩
    all_goals
      obtain ⟨t, -, h⟩ := Option.bind_eq_some_iff.mp h
      exact Program.lists_of_find? h
  · exact Program.lists_of_property? h

/-- The type of a member access. -/
def memberAccess (n : NodeId) (hn : src.kind n = "member_expression") : Query src [] TypeId := do
  let object ← ask.expression (src.child? n "object")
  match hprop : src.child? n "property" with
  | none => Query.unknown
  | some prop =>
    match ← linkMember prop (src.text prop) (fun p => accessed? src p object n prop)
        (.access n prop hn hprop) (Source.spells_text prop) lists_of_accessed? with
    | none => Query.unknown
    | some m => ask.valueOf (some m)

variable {src} in
theorem isMemberUse_of_index {n i : NodeId} (hn : src.kind n = "subscript_expression")
    (h : (src.child? n "index").filter (fun i => src.kind i == "string") = some i) :
    src.IsMemberUse i := by
  obtain ⟨hi, hstring⟩ := Option.filter_eq_some_iff.mp h
  exact .index n i hn hi (eq_of_beq hstring)

/-- The type of an access by index. -/
def indexAccess (n : NodeId) (hn : src.kind n = "subscript_expression") :
    Query src [] TypeId := do
  let object ← ask.expression (src.child? n "object")
  let index? := src.child? n "index"
  match hindex : index?.filter fun i => src.kind i == "string" with
  | some index =>
    let name := unquote (src.text index)
    match ← linkMember index name (fun p => p.property? object name)
        (isMemberUse_of_index hn hindex) (Source.spells_unquote index)
        fun _ _ => Program.lists_of_property? with
    | some m => ask.valueOf (some m)
    | none => Query.unknown
  | none =>
    let _ ← ask.expression index?
    Query.elementType object none

/-- The type of `this`: decided by the nearest method, field, static block or
function around it, arrow functions apart. -/
def thisType (n : NodeId) : Query src [] (Option TypeId) := do
  let holder? := (src.ancestors n).find? fun cur =>
    src.isKind cur ["method_definition", "public_field_definition", "field_definition",
      "class_static_block", "function_declaration", "generator_function_declaration", "function",
      "function_expression", "generator_function", "program"]
  match holder?.filter fun cur =>
      src.isKind cur ["method_definition", "public_field_definition", "field_definition",
        "class_static_block"] with
  | none => return some (← Query.unknown)
  | some cur =>
    match src.parent cur with
    | none => return some (← Query.unknown)
    | some owner =>
      if src.kind owner == "object" then return some (← ask.expression (some owner))
      else
        let cls? ← Query.read fun p => do
          if src.kind owner == "class_body" then
            let node ← src.parent owner
            p.classAt[node]?
          else none
        match cls? with
        | none => return some (← Query.unknown)
        | some cls =>
          if src.hasToken cur "static" || src.kind cur == "class_static_block" then
            return some (← ask.valueOf (some cls))
          else ask.declaredBy (some cls)

/-- The key of a part of an object literal and what it declares. -/
def literalKey? (c : NodeId) : Option (NodeId × Trait) :=
  match src.kind c with
  | "pair" => (src.child? c "key").map fun k => (k, .property)
  | "shorthand_property_identifier" => some (c, .property)
  | "method_definition" =>
    let isAccessor := src.hasToken c "get" || src.hasToken c "set"
    (src.child? c "name").map fun k => (k, if isAccessor then .property else .method)
  | _ => none

theorem isLiteralKey_of_literalKey? {src : Source} {n c key : NodeId} {trait : Trait}
    (hn : src.kind n = "object") (hc : c ∈ src.namedChildren n)
    (hk : literalKey? src c = some (key, trait)) : src.IsLiteralKey key := by
  have hc : c ∈ src.children n := (List.mem_filter.mp hc).1
  unfold literalKey? at hk
  split at hk
  · next hkind =>
    obtain ⟨k, hfind, rfl, -⟩ : ∃ k, src.child? c "key" = some k ∧ k = key ∧ _ = trait := by
      simpa using hk
    exact .pair n c k hn hc hkind hfind
  · next hkind =>
    obtain ⟨rfl, -⟩ : c = key ∧ _ := by simpa using hk
    exact .shorthand n c hn hc hkind
  · next hkind =>
    obtain ⟨k, hfind, rfl, -⟩ : ∃ k, src.child? c "name" = some k ∧ k = key ∧ _ = trait := by
      simpa only [Option.map_eq_some_iff, Prod.mk.injEq] using hk
    exact .method n c k hn hc hkind hfind
  · simp at hk

theorem trait_of_literalKey? {src : Source} {c key : NodeId} {trait : Trait}
    (hk : literalKey? src c = some (key, trait)) : trait = .property ∨ trait = .method := by
  unfold literalKey? at hk
  split at hk
  · obtain ⟨_, _, hpair⟩ := Option.map_eq_some_iff.1 hk
    exact .inl (Prod.mk.inj hpair).2.symm
  · exact .inl (Prod.mk.inj (Option.some.inj hk)).2.symm
  · obtain ⟨_, _, hpair⟩ := Option.map_eq_some_iff.1 hk
    rw [← (Prod.mk.inj hpair).2]
    split
    · exact .inl rfl
    · exact .inr rfl
  · cases hk

/-- Declares a key as a member of an object literal. -/
def declareKey (file : FileId) (shape : SymbolId) (members : TableId) (key : NodeId)
    (trait : Trait) (name : String) : Build Unit := do
  match ← Build.read fun p => (p.table members).find? name with
  | some existing =>
    Build.updateSymbol existing fun s => { s with decls := s.decls ++ [key] }
    Build.setDeclared key existing
  | none =>
    let _ ← Binding.declareMember src file false members shape key (Traits.of [trait])

/-- A key that joins a member of a literal. -/
theorem extends_join {p : Program} {name : String} {s : SymbolId} {key : NodeId} {traits : Traits}
    (hs : p.IsMember name s) (hkey : src.IsLiteralKey key)
    (hname : src.Spells key name) (htraits : traits.has .hardPrivate = false) :
    Program.Extends src p
      ((p.modifySymbol s fun x =>
        { x with traits := x.traits.union traits, decls := x.decls ++ [key] }).markDeclared key s)
      := by
  have joined := Program.Extends.join p s key traits hs.scope hkey htraits hs.literal
  have hkept := hs.extends joined
  refine joined.trans (.declared _ key s hkept.lt hkept.scope ?_ hkey (hkept.name ▸ hname)
    hkept.literal)
  rw [Program.symbol_modifySymbol, if_pos ⟨rfl, hs.lt⟩]
  exact List.mem_append_right _ List.mem_cons_self

theorem find?_holdsMembers {p : Program} {o : LiteralShape} {name : String} {s : SymbolId}
    (ho : p.HoldsMembers o) (hs : (p.table o.table).find? name = some s) : p.IsMember name s :=
  ho.members _ (MemberTable.mem_entries_of_find? hs)

theorem declareMember_extends {p : Program} {file : FileId} {o : LiteralShape}
    {key : NodeId} {traits : Traits} (ho : p.HoldsMembers o) (hkey : src.IsLiteralKey key)
    (htraits : traits.has .hardPrivate = false) :
    Program.Extends src p
      ((Binding.declareMember src file false o.table o.symbol key traits).after p) := by
  unfold Binding.declareMember
  simp only [Build.after_bind, Build.value_get, Build.after_get]
  split
  · next existing hfind =>
    refine extends_join src (find?_holdsMembers ho hfind) hkey (Binding.spells_nameOf src key) ?_
    rw [Traits.has_insertIf _ (by decide), Traits.has_insertIf _ (by decide), htraits]
  · next hfind =>
    let sym : Symbol :=
      { name := Binding.nameOf src key
        traits := (traits.insertIf (Binding.isLiteralName src key) .quoted).insertIf false .ambient
        decls := [key], owner := some o.symbol, file := file }
    have hsym : (p.addSymbol sym).symbol ⟨p.symbols.size⟩ = sym := by
      rw [Program.symbol_addSymbol, if_pos rfl]
    have hlt : p.symbols.size < (p.addSymbol sym).symbols.size := by simp
    have hscope : ((p.addSymbol sym).symbol ⟨p.symbols.size⟩).scope = none := by rw [hsym]
    have hdecls : key ∈ ((p.addSymbol sym).symbol ⟨p.symbols.size⟩).decls := by
      rw [hsym]; exact List.mem_cons_self
    have hname : ((p.addSymbol sym).symbol ⟨p.symbols.size⟩).name = Binding.nameOf src key := by
      rw [hsym]
    have symbol := @Program.Extends.symbol src p sym rfl
    have hliteral : (p.addSymbol sym).IsLiteralMember ⟨p.symbols.size⟩ :=
      ⟨o.symbol, by rw [hsym], symbol.owners_kept.2 _ ho.literal⟩
    have member := @Program.Extends.member src _ o.table _ ⟨p.symbols.size⟩ hlt hscope hname hliteral
    exact (symbol.trans member).trans
      (.declared _ key ⟨p.symbols.size⟩ hlt hscope hdecls hkey
        (hname ▸ Binding.spells_nameOf src key) hliteral)

theorem declareKey_extends {p : Program} {file : FileId} {o : LiteralShape}
    {key : NodeId} {trait : Trait} {name : String} (ho : p.HoldsMembers o)
    (hkey : src.IsLiteralKey key) (hname : src.Spells key name)
    (htrait : trait = .property ∨ trait = .method) :
    Program.Extends src p ((declareKey src file o.symbol o.table key trait name).after p) := by
  unfold declareKey
  simp only [Build.after_bind, Build.value_read, Build.after_read]
  split
  · next existing hfind =>
    have joined := @extends_join src p name existing key {} (find?_holdsMembers ho hfind) hkey hname rfl
    simp only [Traits.union, Nat.or_zero] at joined
    exact joined
  · refine declareMember_extends src ho hkey ?_
    rcases htrait with rfl | rfl <;> decide

/-- The property of a type that may be missing. -/
def expectedProperty? (p : Program) (t? : Option TypeId) (name : String) : Option SymbolId :=
  t?.bind fun t => p.property? t name

theorem lists_of_expectedProperty? {t? : Option TypeId} {name : String} (p : Program)
    (m : SymbolId) (h : expectedProperty? p t? name = some m) : p.Lists name m := by
  obtain ⟨t, -, h⟩ := Option.bind_eq_some_iff.mp h
  exact Program.lists_of_property? h

/-- Links a key of an object literal to the property expected there, or declares
it as a member of the literal. -/
def checkKey {own : List LiteralShape} (expected? : Option TypeId) (file : FileId)
    (literal : LiteralShape) (key : NodeId) (trait : Trait) (name : String)
    (hliteral : literal ∈ own) (hkey : src.IsLiteralKey key) (hname : src.Spells key name)
    (htrait : trait = .property ∨ trait = .method) : Query src own Unit := do
  match ← linkMember key name (fun p => expectedProperty? p expected? name) (.literal key hkey) hname
      lists_of_expectedProperty? with
  | some _ => pure ()
  | none =>
    ⟨(declareKey src file literal.symbol literal.table key trait name).run,
      fun _ hp => declareKey_extends src (hp literal hliteral) hkey hname htrait⟩

/-- The type of an object literal. -/
def objectLiteral (n : NodeId) (hn : src.kind n = "object") : Query src [] TypeId := do
  let context? ← ask (.context n)
  let expected? ← Query.read fun p => context?.filter fun t => !p.isIntrinsic t
  let file := src.fileOf n
  Query.withShape
      { name := Symbol.objectLiteralName, traits := Traits.of [.shape], decls := [n], file := file }
      fun literal => do
    let t ← Query.objectType (some literal.symbol) (some literal.table)
    Query.setShapeAt n literal.symbol
    Query.learn fun p =>
      { p with
        expressionTypes := p.expressionTypes.insert n t
        declaredTypes := p.declaredTypes.insert literal.symbol t }
    (src.namedChildren n).attach.forM fun ⟨c, hc⟩ => do
      if src.kind c == "spread_element" then
        let base ← ask.expression (src.firstNamed? c)
        if !(← Query.read fun p => p.isIntrinsic base) then
          Query.updateType t fun info => { info with bases := info.bases ++ [base] }
      else
        match hk : literalKey? src c with
        | none => pure ()
        | some (key, trait) =>
          match hname : propertyKeyName? src key with
          | none => pure ()
          | some name =>
            checkKey src expected? file literal key trait name List.mem_cons_self
              (isLiteralKey_of_literalKey? hn hc hk) (spells_of_propertyKeyName? hname)
              (trait_of_literalKey? hk)
    match expected? with
    | some base => Query.updateType t fun info => { info with bases := info.bases ++ [base] }
    | none => pure ()
    return t

/-- The type of a call. -/
def callType (n : NodeId) : Query src [] TypeId := do
  let callee? := (src.child? n "function").filter fun c => !isSpecialCallee src c
  let ft? ←
    match callee? with
    | some callee => pure (some (← ask.expression (some callee)))
    | none => pure none
  checkArguments src ask n
  match ← Query.firstSignature? ft? with
  | some sig => return sig.result
  | none => Query.unknown

/-- The type of an expression, worked out. -/
def expressionType (n : NodeId) : Query src [] (Option TypeId) := do
  match hkind : src.kind n with
  | "identifier" | "shorthand_property_identifier" =>
    return some (← ask.valueOf (← Query.read fun p => p.referenced[n]?))
  | "this" => thisType src ask n
  | "member_expression" => return some (← memberAccess src ask n hkind)
  | "subscript_expression" => return some (← indexAccess src ask n hkind)
  | "call_expression" => return some (← callType src ask n)
  | "new_expression" =>
    let side ← ask.expression (src.child? n "constructor")
    checkArguments src ask n
    match ← Query.read fun p => (p.typeInfo side).instance? with
    | some t => return some t
    | none => return some (← Query.unknown)
  | "object" => return some (← objectLiteral src ask n hkind)
  | "array" =>
    let parts ← (src.namedChildren n).mapM fun c => ask.expression (some c)
    let t ← Query.newType { kind := .array }
    let element ← if parts.isEmpty then Query.unknown else Query.composite .union parts
    Query.updateType t fun info => { info with parts := [element] }
    return some t
  | "arrow_function" | "function" | "function_expression" | "generator_function" =>
    ask (.function n)
  | "class" =>
    match ← Query.read fun p => p.classAt[n]? with
    | some cls => return some (← ask.valueOf (some cls))
    | none => return some (← Query.unknown)
  | "parenthesized_expression" | "non_null_expression" | "await_expression" | "spread_element" =>
    return some (← ask.expression (src.firstNamed? n))
  | "as_expression" | "satisfies_expression" =>
    match src.namedChildren n with
    | [] => return some (← Query.unknown)
    | [inner] => return some (← ask.expression (some inner))
    | inner :: second :: rest =>
      let innerType ← ask.expression (some inner)
      let asType ← ask.meaning (some ((second :: rest).getLast?.getD second))
      return some (if src.kind n == "satisfies_expression" then innerType else asType)
  | "type_assertion" =>
    (src.namedChildren n).foldlM (fun (t? : Option TypeId) c => do
      if src.kind c == "type_arguments" then return some (← ask.meaning (src.firstNamed? c))
      else
        let _ ← ask.expression (some c)
        return t?) none
  | "ternary_expression" =>
    let _ ← ask.expression (src.child? n "condition")
    let yes ← ask.expression (src.child? n "consequence")
    let no ← ask.expression (src.child? n "alternative")
    return some (← Query.composite .union [yes, no])
  | "binary_expression" =>
    let left ← ask.expression (src.child? n "left")
    let right ← ask.expression (src.child? n "right")
    match (src.child? n "operator").filter fun op => src.isKind op ["||", "??", "&&"] with
    | some _ => return some (← Query.composite .union [left, right])
    | none => return some (← Query.intrinsic "primitive")
  | "assignment_expression" =>
    let _ ← ask.expression (src.child? n "left")
    return some (← ask.expression (src.child? n "right"))
  | "augmented_assignment_expression" =>
    let _ ← ask.expression (src.child? n "left")
    let _ ← ask.expression (src.child? n "right")
    return some (← Query.intrinsic "primitive")
  | "sequence_expression" =>
    (src.namedChildren n).foldlM (fun (_ : Option TypeId) c => do
      return some (← ask.expression (some c))) none
  | "string" | "template_string" => return some (← Query.intrinsic "string")
  | "number" => return some (← Query.intrinsic "number")
  | "true" | "false" => return some (← Query.intrinsic "boolean")
  | "null" => return some (← Query.intrinsic "null")
  | "undefined" => return some (← Query.intrinsic "undefined")
  | "regex" => return some (← Query.foreign "RegExp" [])
  | _ => return some (← Query.unknown)

end Typing
end Moniker
