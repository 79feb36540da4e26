/-
# Where names are declared

A visit declares a node because of where it stands.  The name of a declaration or of a part
of a pattern is declared in a scope, as what the place says (`Source.Lexical`).  The name of
a member of a class, an interface or an enum goes into the table of its owner
(`Source.MemberName`).  A name in an import or export statement declares an alias
(`Source.AliasName`).

Members under computed names are left out of classes and interfaces, and only there.
-/

import Moniker.Proofs.Layout
import Moniker.Proofs.State

namespace Moniker
namespace Source

/-- The kinds of nodes that declare what stands under `name`, whatever that is. -/
def namingKinds : List String :=
  ["function_declaration", "generator_function_declaration", "function_signature", "function",
    "function_expression", "generator_function", "arrow_function", "class_declaration",
    "abstract_class_declaration", "class", "interface_declaration", "type_alias_declaration",
    "enum_declaration", "type_parameter", "mapped_type_clause"]

/-- The kinds of namespaces, which are declared by names that are no strings. -/
def namespaceKinds : List String := ["module", "internal_module"]

/-- What stands under `name` is declared as. -/
def namingTrait (kind : String) : Trait :=
  match kind with
  | "class_declaration" | "abstract_class_declaration" | "class" => .classDecl
  | "interface_declaration" => .interfaceDecl
  | "type_alias_declaration" => .aliasDecl
  | "enum_declaration" => .enumDecl
  | "type_parameter" | "mapped_type_clause" => .typeParameter
  | _ => .functionDecl

/-- The kinds of nodes with a scope of parameters. -/
def functionKinds : List String :=
  ["function_declaration", "generator_function_declaration", "function_signature", "function",
    "function_expression", "generator_function", "arrow_function", "function_type",
    "constructor_type", "call_signature", "construct_signature", "method_definition",
    "method_signature", "abstract_method_signature"]

/-- The kinds of classes. -/
def classKinds : List String := ["class_declaration", "abstract_class_declaration", "class"]

/-- The kinds of members that are no methods with a body. -/
def memberKinds : List String :=
  ["property_signature", "method_signature", "abstract_method_signature",
    "public_field_definition", "field_definition"]

/-- The kinds of nodes that hold a pattern, and of patterns that hold others. -/
def patternHolders : List String :=
  ["variable_declarator", "for_in_statement", "catch_clause", "required_parameter",
    "optional_parameter", "object_pattern", "pair_pattern", "object_assignment_pattern",
    "array_pattern", "assignment_pattern", "rest_pattern"]

/-- The kinds of names that a pattern binds. -/
def bindingNames : List String := ["identifier", "shorthand_property_identifier_pattern"]

/-- The kinds of nodes of import and export statements that hold names. -/
def aliasHolders : List String :=
  ["import_clause", "import_specifier", "namespace_import", "import_require_clause",
    "export_specifier", "namespace_export"]

variable {src : Source} {outer n : NodeId}

/-- A pattern stands there. -/
def HoldsPattern (src : Source) (n : NodeId) : Prop :=
  ∃ outer, n ∈ src.children outer ∧
    (src.kind outer ∈ patternHolders ∨ src.field outer = "parameters")

/-- The node is where a name with these traits is declared in a scope. -/
inductive Lexical (src : Source) (traits : Traits) : NodeId → Prop where
  | name (outer n : NodeId) :
    src.kind outer ∈ namingKinds → src.child? outer "name" = some n →
    traits.has (namingTrait (src.kind outer)) = true → Lexical src traits n
  | namespace_ (outer n : NodeId) :
    src.kind outer ∈ namespaceKinds → src.child? outer "name" = some n → src.kind n ≠ "string" →
    traits.has .namespaceDecl = true → Lexical src traits n
  | head (outer n : NodeId) :
    src.kind outer = "nested_identifier" → n ∈ src.children outer →
    src.kind n ∈ ["identifier", "nested_identifier"] → traits.has .namespaceDecl = true →
    Lexical src traits n
  | inferred (outer n : NodeId) :
    src.kind outer = "infer_type" → n ∈ src.children outer → src.kind n = "type_identifier" →
    traits.has .typeParameter = true → Lexical src traits n
  | parameter (outer n : NodeId) :
    src.kind outer ∈ functionKinds → n ∈ src.children outer → src.field n = "parameter" →
    traits.has .variableDecl = true → Lexical src traits n
  | pattern (n : NodeId) :
    src.HoldsPattern n → src.kind n ∈ bindingNames → traits.has .variableDecl = true →
    Lexical src traits n

/-- What a name in a scope can be. -/
def lexicalTraits : Traits := Traits.value.union Traits.type

/-- The node is where a member is named. -/
inductive MemberName (src : Source) : NodeId → Prop where
  | member (outer n : NodeId) :
    src.kind outer ∈ memberKinds → n ∈ src.children outer →
    src.kind n ≠ "computed_property_name" → MemberName src n
  | method (cls body outer n : NodeId) :
    src.kind cls ∈ classKinds → src.child? cls "body" = some body → outer ∈ src.children body →
    src.kind outer = "method_definition" → n ∈ src.children outer →
    src.kind n ≠ "computed_property_name" → MemberName src n
  | enumerator (outer body n : NodeId) :
    src.kind outer = "enum_declaration" → src.child? outer "body" = some body →
    n ∈ src.children body → src.kind n = "property_identifier" ∨ src.kind n = "string" →
    MemberName src n
  | assigned (outer n : NodeId) :
    src.kind outer = "enum_assignment" → src.child? outer "name" = some n → MemberName src n

/-- The node is where an import or export statement names something. -/
def AliasName (src : Source) (n : NodeId) : Prop :=
  ∃ outer, n ∈ src.children outer ∧ src.kind outer ∈ aliasHolders

theorem mem_children_of_child? {field : String} (h : src.child? outer field = some n) :
    n ∈ src.children outer := List.mem_of_find?_eq_some h

theorem kind_of_firstOfKind? {kinds : List String} (h : src.firstOfKind? outer kinds = some n) :
    src.kind n ∈ kinds := by
  have hfound := List.find?_some h
  rw [Bool.and_eq_true, isKind, List.contains_iff_mem] at hfound
  exact hfound.2

/-- The name of a declaration of a known kind. -/
theorem Lexical.named {kind : String} {traits : Traits} (hkind : src.kind outer = kind)
    (hnaming : kind ∈ namingKinds) (htrait : traits.has (namingTrait kind) = true)
    (hname : src.child? outer "name" = some n) : src.Lexical traits n :=
  .name outer n (hkind ▸ hnaming) hname (hkind ▸ htrait)

theorem naming_of_classKinds (h : src.kind n ∈ classKinds) :
    src.kind n ∈ namingKinds ∧ namingTrait (src.kind n) = .classDecl := by
  have hall : ∀ k ∈ classKinds, k ∈ namingKinds ∧ namingTrait k = .classDecl := by decide
  exact hall _ h

/-- A place for some traits is one for more traits. -/
theorem Lexical.mono {traits traits' : Traits} (h : src.Lexical traits n)
    (hle : traits.Le traits') : src.Lexical traits' n := by
  cases h with
  | name outer n hkind hname htrait => exact .name outer n hkind hname (hle.has htrait)
  | namespace_ outer n hkind hname hstring htrait =>
    exact .namespace_ outer n hkind hname hstring (hle.has htrait)
  | head outer n hkind hmem hname htrait => exact .head outer n hkind hmem hname (hle.has htrait)
  | inferred outer n hkind hmem hname htrait =>
    exact .inferred outer n hkind hmem hname (hle.has htrait)
  | parameter outer n hkind hmem hfield htrait =>
    exact .parameter outer n hkind hmem hfield (hle.has htrait)
  | pattern n hholds hkind htrait => exact .pattern n hholds hkind (hle.has htrait)

/-- What is declared in a scope is what a name in a scope can be. -/
theorem Lexical.meets {traits : Traits} (h : src.Lexical traits n) :
    traits.meets lexicalTraits = true := by
  cases h with
  | name outer n _ _ htrait =>
    have hall (kind : String) : lexicalTraits.has (namingTrait kind) = true := by
      unfold namingTrait
      split <;> decide
    exact Traits.meets_of_has htrait (hall _)
  | namespace_ _ _ _ _ _ htrait | head _ _ _ _ _ htrait | inferred _ _ _ _ _ htrait
  | parameter _ _ _ _ _ htrait | pattern _ _ _ htrait =>
    exact Traits.meets_of_has htrait (by decide)

theorem AliasName.child {field : String} (hkind : src.kind outer ∈ aliasHolders)
    (h : src.child? outer field = some n) : src.AliasName n :=
  ⟨outer, mem_children_of_child? h, hkind⟩

theorem AliasName.firstOfKind {kinds : List String} (hkind : src.kind outer ∈ aliasHolders)
    (h : src.firstOfKind? outer kinds = some n) : src.AliasName n :=
  ⟨outer, List.mem_of_find?_eq_some h, hkind⟩

theorem HoldsPattern.child {field : String} (hkind : src.kind outer ∈ patternHolders)
    (h : src.child? outer field = some n) : src.HoldsPattern n :=
  ⟨outer, mem_children_of_child? h, .inl hkind⟩

theorem HoldsPattern.firstNamed (hkind : src.kind outer ∈ patternHolders)
    (h : src.firstNamed? outer = some n) : src.HoldsPattern n :=
  ⟨outer, List.mem_of_find?_eq_some h, .inl hkind⟩

theorem HoldsPattern.namedChild (hkind : src.kind outer ∈ patternHolders)
    (h : n ∈ src.namedChildren outer) : src.HoldsPattern n :=
  ⟨outer, (List.mem_filter.mp h).1, .inl hkind⟩

end Source
end Moniker
