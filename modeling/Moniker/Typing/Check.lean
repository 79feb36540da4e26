/-
# Checking a file

Source: `program.Program.checkFile`, `linkPatternKeys`, `isExternalCallee`.

One walk over a file works out the types its expressions need, so that every
member access and key is linked, and notes where values leave the program:

* the arguments of calls of functions the program does not define,
* what is assigned to a place of an ambient type,
* what is spread.
-/

import Moniker.Typing.Answer

namespace Moniker
namespace Typing

/-- Is the called function outside the program's own code? -/
def isExternalCallee (src : Source) : Nat → NodeId → Query src [] Bool
  | 0, _ => do
    Query.cutOff
    return false
  | fuel + 1, callee => do
    match src.kind callee with
    | "parenthesized_expression" | "non_null_expression" =>
      match src.firstNamed? callee with
      | some inner => isExternalCallee src fuel inner
      | none => return false
    | "identifier" =>
      match ← Query.read fun p => p.referenced[callee]? with
      | none => return true
      | some s =>
        match ← Query.resolveAlias s with
        | none => return true
        | some target => Query.read fun p => (p.symbol target).has .ambient
    | "member_expression" =>
      let member? ← Query.read fun p => do
        let prop ← src.child? callee "property"
        p.memberAt[prop]?
      match member?, src.child? callee "object" with
      | some m, _ =>
        Query.read fun p => (p.symbol m).has .ambient || p.isAmbientSymbol (p.symbol m).owner
      | none, some object => isExternalCallee src fuel object
      | none, none => return false
    | _ => return false

/-- Works out the type of an expression for the links it makes. -/
def checkExpression (src : Source) (n : NodeId) : Query src [] Unit := do
  let _ ← Ask.expression (solve src) (some n)

/-- The key of a part of an object pattern. -/
def patternKey? (src : Source) (c : NodeId) : Option NodeId :=
  match src.kind c with
  | "shorthand_property_identifier_pattern" => some c
  | "pair_pattern" => src.child? c "key"
  | "object_assignment_pattern" =>
    (src.child? c "left").filter fun l => src.kind l == "shorthand_property_identifier_pattern"
  | _ => none

theorem isMemberUse_of_patternKey? {src : Source} {c key : NodeId}
    (h : patternKey? src c = some key) : src.IsMemberUse key := by
  unfold patternKey? at h
  split at h
  · next hkind => exact .part key (Option.some.inj h ▸ hkind)
  · next hkind => exact .pairPart c key hkind h
  · exact .part key (eq_of_beq (Option.filter_eq_some_iff.mp h).2)
  · exact nomatch h

/-- Links the keys of an object pattern to the properties they take apart. -/
def linkPatternKeys (src : Source) (pattern : NodeId) : Query src [] Unit := do
  let whole ← Ask.known (solve src) (.position pattern)
  (src.namedChildren pattern).forM fun c =>
    match hkey : patternKey? src c with
    | none => pure ()
    | some key =>
      match hname : propertyKeyName? src key with
      | none => pure ()
      | some name => do
        let _ ← linkMember key name (fun p => p.property? whole name)
          (isMemberUse_of_patternKey? hkey) (spells_of_propertyKeyName? hname)
          fun _ _ => Program.lists_of_property?

/-- Checks one node. -/
def checkNode (src : Source) (n : NodeId) : Query src [] Unit := do
  match src.kind n with
  | "member_expression" | "subscript_expression" | "object" | "new_expression" =>
    checkExpression src n
  | "call_expression" =>
    checkExpression src n
    match src.child? n "function" with
    | none => pure ()
    | some callee =>
      if ← isExternalCallee src (src.nodes.size + 1) callee then
        match src.child? n "arguments" with
        | some args => (src.namedChildren args).forM Query.addEffect
        | none => pure ()
  | "assignment_expression" =>
    match src.child? n "left", src.child? n "right" with
    | some left, some right =>
      if !src.isKind left ["object_pattern", "array_pattern"] then
        let t ← Ask.expression (solve src) (some left)
        if ← Query.read fun p => p.isAmbientType t then Query.addEffect right
    | _, _ => pure ()
    checkExpression src n
  | "spread_element" =>
    match src.firstNamed? n with
    | some inner => Query.addEffect inner
    | none => pure ()
  | "object_pattern" => linkPatternKeys src n
  | "lookup_type" | "nested_type_identifier" | "generic_type" =>
    let _ ← Ask.meaning (solve src) (some n)
  | "type_alias_declaration" =>
    match ← Query.read fun p => (src.child? n "name").bind fun name => p.declared[name]? with
    | some s => let _ ← solve src (.declaredBy s)
    | none => pure ()
  | _ => pure ()

/-- Checks a file. -/
def checkFile (src : Source) (f : FileId) : Query src [] Unit := do
  (src.nodesOf f).forM (checkNode src)
  (← Query.read fun p => p.effectRoots f).forM (checkExpression src)

end Typing
end Moniker
