/-
# Exports of a value and a type

An export clause names symbols of its own module.  A name can denote two of them, a
value and a type, and the clause exports both.  The alias that the clause makes leads
to the value alone, and the clause is rewritten to the new name of the value
(`Program.ExportsBoth`).

A plan gives no name out twice.  So where the value and the type are two symbols,
the rewritten clause still exports the type only if the plan renames neither
(`exportsBoth_planMangle`).  In `typeBesideValue` it renames both, and the interface
is no longer exported.
-/

import Moniker.Proofs.NoCapture
import Moniker.Program.Linking

namespace Moniker
namespace Program

variable {p : Program} {c a b : ScopeId} {x : String} {s : SymbolId}

/-- Of two scopes around a third, one is around the other. -/
theorem mem_outward_or_mem_outward (hw : WellScoped p) (ha : a ∈ p.outward c)
    (hb : b ∈ p.outward c) : b ∈ p.outward a ∨ a ∈ p.outward b := by
  have hunique : Relator.RightUnique fun x y => (p.scope x).parent = some y := by
    intro x y z hy hz
    exact Option.some.inj (hy.symm.trans hz)
  have htotal := Relation.ReflTransGen.total_of_right_unique hunique
    (Binding.around_of_mem_outwardWithin ha) (Binding.around_of_mem_outwardWithin hb)
  exact htotal.imp (mem_outward_of_around hw) (mem_outward_of_around hw)

/-- What a value name denotes is listed in a scope on the way out. -/
theorem mem_symbols_of_lookupValue? (hw : WellScoped p) (h : p.lookupValue? c x = some s) :
    ∃ home ∈ p.outward c, s ∈ (p.scope home).symbols ∧ (p.symbol s).name = x := by
  obtain ⟨home, hhome, hs⟩ := List.exists_of_findSome?_eq_some h
  exact ⟨home, hhome, hw.known (.inl hs)⟩

/-- What a type name denotes is listed in a scope on the way out. -/
theorem mem_symbols_of_lookupType? (hw : WellScoped p) (h : p.lookupType? c x = some s) :
    ∃ home ∈ p.outward c, s ∈ (p.scope home).symbols ∧ (p.symbol s).name = x := by
  obtain ⟨home, hhome, hs⟩ := List.exists_of_findSome?_eq_some h
  exact ⟨home, hhome, hw.known (.inr hs)⟩

/-- The symbol is the alias of a specifier that exports a name used in the scope, not
one of another module. -/
structure ExportsName (p : Program) (ex : SymbolId) (c : ScopeId) (x : String) : Prop where
  exports : (p.symbol ex).has .exportAlias = true
  own : (p.symbol ex).specifier = ""
  scope : (p.symbol ex).localScope = some c
  name : (p.symbol ex).importedName = x

/-- What specifiers whose name denotes a value and a type export under a plan. -/
structure ExportsBoth (p : Program) (plan : ManglePlan) : Prop where
  /-- The specifier leads to the value, and the new name of the value denotes it. -/
  value : ∀ {ex c x v}, p.ExportsName ex c x → p.lookupValue? c x = some v →
    p.aliasStep? (p.symbol ex) = some v ∧
      p.Denotes Scope.values (plan.finalName p) c (plan.finalName p v) v
  /-- The value and the type have one final name only if they are one symbol or both
  keep their name. -/
  name : ∀ {ex c x v t}, p.ExportsName ex c x → p.lookupValue? c x = some v →
    p.lookupType? c x = some t →
      (plan.finalName p v = plan.finalName p t ↔ v = t ∨ ¬ plan.Renames v ∧ ¬ plan.Renames t)
  /-- Only then does the new name of the value denote the type as well. -/
  type : ∀ {ex c x v t}, p.ExportsName ex c x → p.lookupValue? c x = some v →
    p.lookupType? c x = some t →
      (p.Denotes Scope.types (plan.finalName p) c (plan.finalName p v) t ↔
        v = t ∨ ¬ plan.Renames v ∧ ¬ plan.Renames t)

theorem ExportsName.aliasStep? {ex v : SymbolId} (h : p.ExportsName ex c x)
    (hv : p.lookupValue? c x = some v) : p.aliasStep? (p.symbol ex) = some v := by
  rw [Program.aliasStep?, h.own, if_pos (by rfl), localTarget?, h.scope, h.name,
    Option.bind_some, hv]
  rfl

end Program

namespace ManglePlan.Safe

variable {p : Program} {plan : ManglePlan} {c : ScopeId} {x : String} {v t : SymbolId}

/-- **A value and a type of one name stay together only where neither is renamed.** -/
theorem finalName_eq_iff (h : Safe p plan) (hv : p.lookupValue? c x = some v)
    (ht : p.lookupType? c x = some t) :
    plan.finalName p v = plan.finalName p t ↔ v = t ∨ ¬ plan.Renames v ∧ ¬ plan.Renames t := by
  obtain ⟨home, hhome, hmem, hname⟩ := Program.mem_symbols_of_lookupValue? h.wellScoped hv
  obtain ⟨home', hhome', hmem', hname'⟩ := Program.mem_symbols_of_lookupType? h.wellScoped ht
  constructor
  · intro heq
    refine or_iff_not_imp_left.mpr fun hne => ?_
    -- One of the two scopes is around the other, and there the two symbols meet.
    rcases Program.mem_outward_or_mem_outward h.wellScoped hhome hhome' with hin | hin
    · exact (h.not_renames hmem' hmem hin hne heq).symm
    · exact h.not_renames hmem hmem' hin (Ne.symm hne) heq.symm
  · rintro (rfl | ⟨hv, ht⟩)
    · rfl
    · rw [finalName_of_not_renames hv, finalName_of_not_renames ht, hname, hname']

theorem denotes_value (h : Safe p plan) (hv : p.lookupValue? c x = some v) :
    p.Denotes Scope.values (plan.finalName p) c (plan.finalName p v) v :=
  h.denotes Scope.values (fun hx => .inl hx) hv

theorem denotes_type_iff (h : Safe p plan) (hv : p.lookupValue? c x = some v)
    (ht : p.lookupType? c x = some t) :
    p.Denotes Scope.types (plan.finalName p) c (plan.finalName p v) t ↔
      v = t ∨ ¬ plan.Renames v ∧ ¬ plan.Renames t := by
  rw [← h.finalName_eq_iff hv ht]
  constructor
  · intro hdenotes
    exact hdenotes.1.symm
  · intro heq
    rw [heq]
    exact h.denotes Scope.types (fun hx => .inr hx) ht

theorem exportsBoth (h : Safe p plan) : p.ExportsBoth plan where
  value halias hv := ⟨halias.aliasStep? hv, h.denotes_value hv⟩
  name _ hv ht := h.finalName_eq_iff hv ht
  type _ hv ht := h.denotes_type_iff hv ht

end ManglePlan.Safe

/-- **An export that names a value and a type keeps both,** if they are one symbol or
keep their name. -/
theorem exportsBoth_planMangle {files : List ParsedFile} {p : Program}
    (h : Program.build files = .ok p) {sel : List FileId} (hsel : ∀ f ∈ sel, f ∈ p.source.fileIds)
    (opts : MangleOptions) : p.ExportsBoth ((planMangle sel opts).value p) := by
  obtain ⟨src, rfl, hs⟩ := Program.laidOut_of_build h
  have hsource := Program.source_ofSource hs
  exact (ManglePlan.safe_planMangle (Program.wellScoped_ofSource hs) (hsource.symm ▸ hs)
    hsel).exportsBoth

/-- An interface and a constant of one name, and a clause that exports the name. -/
def typeBesideValue : ParsedFile where
  path := "main.ts"
  contents := "interface Aaa { }\nconst Aaa = 1\nexport { Aaa }".toUTF8
  tree :=
    .node "program" "" true 0 46 [
      .node "interface_declaration" "" true 0 17 [
        .node "type_identifier" "name" true 10 13 [],
        .node "object_type" "body" true 14 17 []],
      .node "lexical_declaration" "" true 18 31 [
        .node "const" "kind" false 18 23 [],
        .node "variable_declarator" "" true 24 31 [
          .node "identifier" "name" true 24 27 [],
          .node "number" "value" true 30 31 []]],
      .node "export_statement" "" true 32 46 [
        .node "export_clause" "" true 39 46 [
          .node "export_specifier" "" true 41 44 [
            .node "identifier" "name" true 41 44 []]]]]

theorem exportsBoth_planMangle_typeBesideValue : ∃ p, Program.build [typeBesideValue] = .ok p ∧
    p.ExportsBoth ((planMangle [⟨0⟩] {}).value p) := by
  have hbuild := Program.build_singleton typeBesideValue
  refine ⟨_, hbuild, exportsBoth_planMangle hbuild (fun f hf => ?_) {}⟩
  rw [Program.fileIds_of_build hbuild, List.mem_singleton.mp hf]
  decide

end Moniker
