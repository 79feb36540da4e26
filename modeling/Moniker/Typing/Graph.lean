/-
# The graph of types

Source: `program.Program.Property`, `composite`, `elementType`, `firstSignature`,
`isAmbientType`, `Type.String`.

Types refer to each other by number and may form cycles.  A search along the
graph carries the types it has been to (`property?`) or a bound on its depth
(`typeText`, `isAmbientType`); the number of types is always bound enough.  The search
for a signature carries neither, so it does not end where type parameters are the
constraints of each other in a circle.

| edge | followed by |
| --- | --- |
| bases of an object | `property?` |
| parts of a union or intersection | `property?`, `searchSignature`, `typeText`, `isAmbientType` |
| constraint of a type parameter | `property?`, `searchSignature` |
-/

import Moniker.Program.Query

namespace Moniker
namespace Program

variable (p : Program)

/-- Is the type a primitive or a keyword? -/
def isIntrinsic (t : TypeId) : Bool := (p.typeInfo t).kind == .intrinsic

/-- The members of a type itself. -/
def typeMembers (t : TypeId) : List SymbolId :=
  ((p.typeInfo t).members.map fun tbl => (p.table tbl).symbols).getD []

/-- Is the type a union or an intersection? -/
def isComposite (t : TypeId) : Bool :=
  (p.typeInfo t).kind == .union || (p.typeInfo t).kind == .intersection

/-- The text of a type, at most this many levels deep. -/
def typeTextWithin : Nat → TypeId → String
  | 0, _ => ""
  | fuel + 1, t =>
    let info := p.typeInfo t
    match info.kind with
    | .intrinsic => info.name
    | .union => Text.join " | " (info.parts.map (typeTextWithin fuel))
    | .intersection => Text.join " & " (info.parts.map (typeTextWithin fuel))
    | .array =>
      match info.parts with
      | [element] => typeTextWithin fuel element ++ "[]"
      | parts => "tuple(" ++ toString parts.length ++ ")"
    | .param => "typeparam " ++ info.name
    | .object =>
      match info.alias?, info.symbol with
      | some a, _ => (p.symbol a).name
      | none, some s => (p.symbol s).name
      | none, none => info.name

/-- The text of a type. -/
def typeText (t : TypeId) : String := p.typeTextWithin (p.types.size + 1) t

/-- The types a property is looked for in after a type itself. -/
def propertyEdges (info : TypeInfo) : List TypeId :=
  match info.kind with
  | .object => info.bases
  | .union | .intersection => info.parts
  | .param => info.constraint.toList
  | .intrinsic | .array => []

/-- The property a type has itself. -/
def ownProperty? (info : TypeInfo) (name : String) : Option SymbolId :=
  match info.kind with
  | .object => info.members.bind fun t => (p.table t).find? name
  | _ => none

/-- Searches for a property depth first. Types in `seen` are not entered again;
the answer comes with all types entered. -/
def propertyWithin (name : String) : Nat → TypeId → List TypeId → Option SymbolId × List TypeId
  | 0, _, seen => (none, seen)
  | fuel + 1, t, seen =>
    if seen.contains t then (none, seen)
    else
      let info := p.typeInfo t
      match p.ownProperty? info name with
      | some m => (some m, t :: seen)
      | none =>
        (propertyEdges info).foldl (fun (found, seen) next =>
          match found with
          | some m => (some m, seen)
          | none => propertyWithin name fuel next seen) (none, t :: seen)

/-- The property of a type under a name. -/
def property? (t : TypeId) (name : String) : Option SymbolId :=
  (p.propertyWithin name (p.types.size + 1) t []).1

variable {p} in
theorem lists_of_propertyWithin {name : String} {m : SymbolId} (fuel : Nat) :
    ∀ t seen, (p.propertyWithin name fuel t seen).1 = some m → p.Lists name m := by
  induction fuel with
  | zero => exact fun _ _ h => nomatch h
  | succ fuel ih =>
    intro t seen h
    unfold propertyWithin at h
    split at h
    · exact nomatch h
    dsimp only at h
    split at h
    · next own hown =>
      rw [← Option.some.inj h]
      unfold ownProperty? at hown
      split at hown
      · obtain ⟨t, -, hfind⟩ := Option.bind_eq_some_iff.mp hown
        exact lists_of_find? hfind
      · exact nomatch hown
    · refine List.foldlRecOn
        (motive := fun acc : Option SymbolId × List TypeId => acc.1 = some m → _)
        (propertyEdges (p.typeInfo t)) _ (by simp) (fun acc ihacc next _ h => ?_) h
      obtain ⟨found, seen⟩ := acc
      cases found with
      | some _ => exact ihacc h
      | none => exact ih _ _ h

variable {p} in
/-- A property is listed under its name. -/
theorem lists_of_property? {t : TypeId} {name : String} {m : SymbolId}
    (h : p.property? t name = some m) : p.Lists name m := lists_of_propertyWithin _ _ _ h

/-- The types a signature is looked for in after a type itself. -/
def signatureEdges (info : TypeInfo) : List TypeId :=
  match info.kind with
  | .union | .intersection => info.parts
  | .param => info.constraint.toList
  | .intrinsic | .object | .array => []

/-- Searches for a signature depth first. Types may be entered again; `none` where
the search does not end. -/
def searchSignature (t : TypeId) : Option (Option Signature) :=
  match (p.typeInfo t).signatures with
  | sig :: _ => some (some sig)
  -- A name given to a tactic does not bring its place in the file into the fixed point.
  | [] => (signatureEdges (p.typeInfo t)).findSomeM? (by apply searchSignature)
partial_fixpoint

/-- Is the symbol declared without code? -/
def isAmbientSymbol (s? : Option SymbolId) : Bool :=
  (s?.map fun s => (p.symbol s).has .ambient).getD false

/-- Does the type come from a declaration without code, at most this many levels
deep? -/
def isAmbientWithin : Nat → TypeId → Bool
  | 0, _ => false
  | fuel + 1, t =>
    let info := p.typeInfo t
    p.isAmbientSymbol info.symbol || p.isAmbientSymbol info.alias?
    || (p.isComposite t && info.parts.any (isAmbientWithin fuel))

/-- Does the type, or a part of it, come from a declaration without code? -/
def isAmbientType (t : TypeId) : Bool := p.isAmbientWithin (p.types.size + 1) t

/-- The parts of a composite made of `parts`: each once, and those of an unnamed
composite of the same form in its place. -/
def flattenParts (kind : TypeKind) (parts : List TypeId) : List TypeId :=
  (parts.flatMap fun t =>
    let info := p.typeInfo t
    if info.kind == kind && info.alias?.isNone then info.parts else [t]).eraseDups

end Program

namespace Query

variable {src : Source} {own : List LiteralShape}

/-- Adds a type. -/
def newType (info : TypeInfo) : Query src own TypeId := do
  let id : TypeId := ⟨← read fun p => p.types.size⟩
  learn fun p => { p with types := p.types.push info }
  return id

/-- Changes a type. -/
def updateType (t : TypeId) (f : TypeInfo → TypeInfo) : Query src own Unit :=
  learn fun p => { p with types := p.types.modify t.idx f }

/-- The intrinsic type of a name; there is one of each. -/
def intrinsic (name : String) : Query src own TypeId := do
  match ← read fun p => p.intrinsics[name]? with
  | some t => return t
  | none =>
    let t ← newType { kind := .intrinsic, name := name }
    learn fun p => { p with intrinsics := p.intrinsics.insert name t }
    return t

/-- The type of what nothing is known about. -/
def unknown : Query src own TypeId := intrinsic "unknown"

/-- An object type with these members. -/
def objectType (symbol : Option SymbolId) (members : Option TableId) : Query src own TypeId :=
  newType { kind := .object, symbol := symbol, members := members }

/-- A type the program does not declare, or an operator it does not work out. Its
operands stay reachable as arguments. -/
def foreign (label : String) (args : List TypeId) : Query src own TypeId :=
  newType { kind := .object, name := label, typeArgs := args }

/-- The union or intersection of types. One part is itself; none is unknown. -/
def composite (kind : TypeKind) (parts : List TypeId) : Query src own TypeId := do
  match ← read fun p => p.flattenParts kind parts with
  | [] => unknown
  | [t] => return t
  | flat => newType { kind := kind, parts := flat }

/-- The first signature of a callable that may be missing, looked for through unions,
intersections and constraints. -/
def firstSignature? (t? : Option TypeId) : Query src own (Option Signature) :=
  match t? with
  | none => return none
  | some t => do
    match ← read fun p => p.searchSignature t with
    | some sig? => return sig?
    | none =>
      runOn
      return none

/-- The names under which a type with one argument is an array. -/
def arrayNames : List String := ["Array", "ReadonlyArray"]

/-- The type of an element of an array or tuple, of any element where there is no
element at the index. -/
def elementType (t : TypeId) (index : Option Nat) : Query src own TypeId := do
  let info ← read fun p => p.typeInfo t
  match info.kind, info.parts with
  | .array, [element] => return element
  | .array, first :: rest =>
    match index.bind fun i => (first :: rest)[i]? with
    | some element => return element
    | none => composite .union (first :: rest)
  | .object, _ =>
    match info.typeArgs with
    | [arg] => if arrayNames.contains info.name then return arg else unknown
    | _ => unknown
  | _, _ => unknown

end Query
end Moniker
