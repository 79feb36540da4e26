/-
# Questions about types

Source: `program.Program.TypeOfSymbol`, `DeclaredTypeOfSymbol`, `typeFromTypeNode`,
`checkExpr`, `positionType`.

Working out one type asks for others: the type of a call asks for the type of its
callee, that for the type of a declaration, and so on, possibly in a circle.  The
rules are therefore written over an `Ask` that answers the further questions, and
`Typing.Answer` ties the knot.

`valueOf`, `declaredBy`, `meaning`, `expression` and `position` remember their
answers and answer `unknown` to a question that is still open; `context` goes
outwards in the tree and has no memory.
-/

import Moniker.Program.Linking
import Moniker.Typing.Graph

namespace Moniker

/-- A question about types. -/
inductive Question where
  /-- The type of a symbol's value. -/
  | valueOf (s : SymbolId)
  /-- The type a symbol is the name of. -/
  | declaredBy (s : SymbolId)
  /-- The type a type expression means. -/
  | meaning (n : NodeId)
  /-- The type of an expression. -/
  | expression (n : NodeId)
  /-- The type of what flows into a place of a binding pattern. -/
  | position (n : NodeId)
  /-- The type an expression is expected to have where it stands. -/
  | context (n : NodeId)
  /-- The type of a function-like node. -/
  | function (n : NodeId)
deriving Inhabited

/-- How questions are answered; `none` where there is no type. -/
abbrev Ask (src : Source) := Question → Query src [] (Option TypeId)

namespace Ask

variable {src : Source} (ask : Ask src)

/-- The answer, or the unknown type. -/
def known (q : Question) : Query src [] TypeId := do
  match ← ask q with
  | some t => return t
  | none => Query.unknown

/-- The type of the value of a symbol that may be missing. -/
def valueOf (s? : Option SymbolId) : Query src [] TypeId :=
  match s? with
  | some s => ask.known (.valueOf s)
  | none => Query.unknown

/-- The type that a symbol, which may be missing, is the name of. -/
def declaredBy (s? : Option SymbolId) : Query src [] (Option TypeId) :=
  match s? with
  | some s => ask (.declaredBy s)
  | none => return none

/-- The type that a type expression, which may be missing, means. -/
def meaning (n? : Option NodeId) : Query src [] TypeId :=
  match n? with
  | some n => ask.known (.meaning n)
  | none => Query.unknown

/-- The type of an expression that may be missing. -/
def expression (n? : Option NodeId) : Query src [] TypeId :=
  match n? with
  | some n => ask.known (.expression n)
  | none => Query.unknown

end Ask

namespace Typing

/-- The property that is found for a key or member access under its name; the first time it
is recorded that the node denotes it. -/
def linkMember {src : Source} {own : List LiteralShape} (n : NodeId) (name : String)
    (find : Program → Option SymbolId) (hn : src.IsMemberUse n) (hname : src.Spells n name)
    (hfind : ∀ p m, find p = some m → p.Lists name m) : Query src own (Option SymbolId) where
  run p :=
    match find p with
    | none => (none, p)
    | some m => (some m, if p.memberAt.contains n then p else (p.markMember n m).addUse n m)
  keeps p _ := by
    split
    · exact .refl p
    · next m hm =>
      dsimp only
      split
      · exact .refl p
      · next h => exact .link p n m name (Bool.eq_false_iff.mpr h) hn hname (hfind p m hm)

/-- The name of the property a key means, none for a computed key. -/
def propertyKeyName? (src : Source) (key : NodeId) : Option String :=
  match src.kind key with
  | "property_identifier" | "shorthand_property_identifier"
  | "shorthand_property_identifier_pattern" | "private_property_identifier" | "identifier"
  | "number" => some (src.text key)
  | "string" => some (unquote (src.text key))
  | _ => none

theorem spells_of_propertyKeyName? {src : Source} {key : NodeId} {name : String}
    (h : propertyKeyName? src key = some name) : src.Spells key name := by
  unfold propertyKeyName? at h
  split at h
  case h_7 =>
    rw [← Option.some.inj h]
    exact Source.spells_unquote key
  case h_8 => cases h
  all_goals exact .inl (Option.some.inj h)

/-- Nodes inside which `return` returns from the node, and classes. -/
def isFunctionLike (src : Source) (n : NodeId) : Bool :=
  src.isKind n ["function_declaration", "generator_function_declaration", "function",
    "function_expression", "generator_function", "arrow_function", "method_definition",
    "class_declaration", "class", "abstract_class_declaration"]

/-- The place of a node among the named children of its parent, zero if it is
none of them. -/
def namedIndex (src : Source) (parent n : NodeId) : Nat :=
  ((src.namedChildren parent).findIdx? fun c => c == n).getD 0

/-- The type of a property of a type, unknown without it. -/
def typeOfProperty {src : Source} (ask : Ask src) (t : TypeId) (name : String) : Query src [] TypeId := do
  ask.valueOf (← Query.read fun p => p.property? t name)

end Typing
end Moniker
