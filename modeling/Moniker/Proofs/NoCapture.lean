/-
# New names capture nothing

A plan gives new names to some of the symbols of a program.  Where a name denoted a
symbol, the new name of the symbol denotes it again (`noCapture_planMangle`): on the
way from the use out to the scope of the symbol there is no other symbol of the
same final name, unless neither of the two was renamed.  And a new name is never
one that a file uses for something the program does not declare.

Two renamed symbols differ because no name is given out twice.  A renamed symbol
differs from one that keeps its name because that name counts as fixed where it
could be confused with the new one: in the scopes around the renamed symbol if the
other is further out, and in the scopes inside its own if it is further in.
-/

import Moniker.Proofs.Binding.Declare
import Moniker.Proofs.Plans
import Moniker.Proofs.Stages
import Mathlib.Data.List.Pairwise

namespace Moniker

open Program (Later)

namespace Program

variable {p : Program} {c t : ScopeId} {s : SymbolId} {rec : ScopedSymbol} {f : FileId}

/-! ### Scopes around and inside -/

theorem self_mem_outward (c : ScopeId) : c ∈ p.outward c := by
  unfold outward outwardWithin
  split
  · exact List.mem_cons_self
  · exact List.mem_cons_self

theorem idx_le_of_around (hw : WellScoped p) (h : Binding.Around p t c) : c.idx ≤ t.idx := by
  induction h with
  | refl => exact le_rfl
  | tail _ hp ih => exact (hw.parent_lt hp).1.le.trans ih

/-- A scope lies inside every scope around it. -/
theorem mem_scopesInside (hw : WellScoped p) (h : Binding.Around p t c) :
    t = c ∨ ∀ fuel, t.idx ≤ c.idx + fuel → t ∈ Allocator.scopesInside p fuel c := by
  induction h with
  | refl => exact .inl rfl
  | @tail b c htb hb ih =>
    have hlt := (hw.parent_lt hb).1
    have hle := idx_le_of_around hw htb
    refine .inr fun fuel hfuel => ?_
    cases fuel with
    | zero => omega
    | succ fuel =>
      refine List.mem_flatMap.mpr ⟨b, hw.child hb, ?_⟩
      rcases ih with rfl | ih
      · exact List.mem_cons_self
      · exact List.mem_cons_of_mem _ (ih fuel (by omega))

theorem mem_outward_of_around (hw : WellScoped p) (h : Binding.Around p t c) : c ∈ p.outward t := by
  have hwithin : ∀ fuel, t.idx ≤ c.idx + fuel → c ∈ p.outwardWithin (fuel + 1) t := by
    induction h using Relation.ReflTransGen.head_induction_on with
    | refl =>
      intro fuel _
      unfold outwardWithin
      split <;> exact List.mem_cons_self
    | @head t u hp _ ih =>
      intro fuel hfuel
      have hlt := (hw.parent_lt hp).1
      unfold outwardWithin
      rw [hp]
      refine List.mem_cons_of_mem _ ?_
      cases fuel with
      | zero =>
        have hle := idx_le_of_around hw ‹_›
        omega
      | succ fuel => exact ih fuel (by omega)
  rcases Relation.ReflTransGen.cases_head h with rfl | ⟨_, hp, _⟩
  · exact self_mem_outward t
  · have hlt := (hw.parent_lt hp).2
    exact hwithin _ (by omega)

/-- Of the scopes outwards, each lies inside those after it. -/
theorem around_of_outwardWithin_eq {fuel : Nat} {inner outer : List ScopeId} {home : ScopeId}
    (h : p.outwardWithin fuel c = inner ++ home :: outer) (ht : t ∈ inner ++ [home]) :
    Binding.Around p t home := by
  induction fuel generalizing c inner with
  | zero => exact absurd h.symm (List.append_ne_nil_of_right_ne_nil _ (List.cons_ne_nil _ _))
  | succ fuel ih =>
    cases inner with
    | nil =>
      rw [List.mem_singleton.mp ht]
      exact .refl
    | cons i inner =>
      have hhome : home ∈ p.outwardWithin (fuel + 1) c := by rw [h]; simp
      unfold outwardWithin at h
      split at h
      · exact absurd (List.cons.inj h).2.symm
          (List.append_ne_nil_of_right_ne_nil _ (List.cons_ne_nil _ _))
      · next u hp =>
        rcases List.mem_cons.mp ht with rfl | ht
        · rw [← (List.cons.inj h).1]
          exact Binding.around_of_mem_outwardWithin hhome
        · exact ih (List.cons.inj h).2 ht

/-- **Symbols on the way out to a scope are neighbours there.** -/
theorem mem_neighbours_of_inside (hw : WellScoped p) (hc : c ∈ p.outward t)
    (hs : s ∈ (p.scope t).symbols) : s ∈ Allocator.neighbours p (some c) := by
  have haround := Binding.around_of_mem_outwardWithin hc
  refine List.mem_flatMap.mpr ⟨t, ?_, hs⟩
  rcases mem_scopesInside hw haround with rfl | hinside
  · exact List.mem_append_left _ (self_mem_outward t)
  · rcases Relation.ReflTransGen.cases_head haround with rfl | ⟨_, hp, _⟩
    · exact List.mem_append_left _ (self_mem_outward t)
    · have hlt := (hw.parent_lt hp).2
      exact List.mem_append_right _ (hinside _ (by omega))

theorem mem_neighbours_of_outside (hc : c ∈ p.outward t) (hs : s ∈ (p.scope c).symbols) :
    s ∈ Allocator.neighbours p (some t) :=
  List.mem_flatMap.mpr ⟨c, List.mem_append_left _ hc, hs⟩

end Program

namespace Program

/-- Under the names that symbols have by `nameOf`, the name denotes the symbol when
used in the scope: of the scopes outwards, the first that has the name in its table
has it for the symbol alone. -/
def Denotes (p : Program) (table : Scope → Table String SymbolId) (nameOf : SymbolId → String)
    (c : ScopeId) (name : String) (s : SymbolId) : Prop :=
  nameOf s = name ∧ ∃ inner home outer, p.outward c = inner ++ home :: outer ∧
    (∃ x : String, (table (p.scope home))[x]? = some s) ∧
    ∀ t ∈ inner ++ [home], ∀ (x : String) s', (table (p.scope t))[x]? = some s' →
      nameOf s' = name → s' = s

/-- No name of the plan captures a use. -/
structure NoCapture (p : Program) (plan : ManglePlan) : Prop where
  /-- Symbols on the way from a use to what it denotes have other final names, unless
  they and the symbol denoted keep theirs. -/
  apart : ∀ {c name s}, p.lookupValue? c name = some s ∨ p.lookupType? c name = some s →
    ∃ home ∈ p.outward c, (p.symbol s).scope = some home ∧
      ∀ t ∈ p.outward c, home ∈ p.outward t → ∀ s' ∈ (p.scope t).symbols, s' ≠ s →
        plan.finalName p s' = plan.finalName p s → ¬ plan.Renames s ∧ ¬ plan.Renames s'
  /-- What a value name denoted, its new name denotes. -/
  value : ∀ {c name s}, p.lookupValue? c name = some s →
    p.Denotes Scope.values (plan.finalName p) c (plan.finalName p s) s
  /-- What a type name denoted, its new name denotes. -/
  type : ∀ {c name s}, p.lookupType? c name = some s →
    p.Denotes Scope.types (plan.finalName p) c (plan.finalName p s) s
  /-- A new lexical name is not used in the file for something undeclared. -/
  unresolved : ∀ r ∈ plan.renamings, ∀ s?, r.domain = .lexical s? →
    r.target ∉ p.unresolvedNames (p.source.fileOf r.decl)

end Program

namespace ManglePlan

variable {p : Program} {plan : ManglePlan} {files : List FileId} {opts : MangleOptions}

/-- A plan whose names are safe and that gives the symbols of scopes lexical names. -/
structure Safe (p : Program) (plan : ManglePlan) : Prop where
  wellScoped : WellScoped p
  settled : ∃ final a, Allocator.Settled p final a plan.renamings
  lexical : ∀ {c}, ∀ r ∈ plan.renamings, r.symbol ∈ (p.scope c).symbols →
    r.domain = .lexical (some c)

theorem safe_planMangle (hw : WellScoped p) (hs : p.source.LaidOut)
    (hsel : ∀ f ∈ files, f ∈ p.source.fileIds) : Safe p ((planMangle files opts).value p) := by
  obtain ⟨hsettled, hrenames⟩ := settled_planMangle opts hw hs hsel
  refine ⟨hw, ⟨_, hsettled⟩, fun r hr hlisted => ?_⟩
  obtain ⟨e, he, hsymbol, _, hdomain⟩ := hrenames r hr
  rw [hdomain]
  exact Program.domain_of_mem_candidates hw he (hsymbol ▸ hlisted)

namespace Safe

variable {c home t : ScopeId} {s s' : SymbolId}

/-- A new name is not the name of a neighbour that keeps its own. -/
theorem name_ne_finalName (h : Safe p plan) (hs : s ∈ (p.scope c).symbols)
    (hmoves : plan.Renames s) (hs' : s' ∈ Allocator.neighbours p (some c))
    (hstays : ¬ plan.Renames s') : plan.finalName p s' ≠ plan.finalName p s := by
  obtain ⟨_, a, hsettled⟩ := h.settled
  obtain ⟨r, hr, rfl, htarget⟩ := exists_target_eq_finalName (p := p) hmoves
  rw [finalName_of_not_renames hstays, ← htarget]
  exact hsettled.sound.name_ne_target hr (h.lexical r hr hs) hs' fun hm =>
    hstays (hsettled.moved s' hm)

/-- Two symbols of scopes have different new names. -/
theorem finalName_ne_finalName (h : Safe p plan) (hs : s ∈ (p.scope c).symbols)
    (hs' : s' ∈ (p.scope t).symbols) (hne : s' ≠ s) (hmoves : plan.Renames s)
    (hmoves' : plan.Renames s') : plan.finalName p s' ≠ plan.finalName p s := by
  obtain ⟨_, a, hsettled⟩ := h.settled
  obtain ⟨r, hr, rfl, htarget⟩ := exists_target_eq_finalName (p := p) hmoves
  obtain ⟨r', hr', rfl, htarget'⟩ := exists_target_eq_finalName (p := p) hmoves'
  rw [← htarget, ← htarget']
  have hhard : Allocator.isHardPrivate r.domain = false := by rw [h.lexical r hr hs]; rfl
  have hhard' : Allocator.isHardPrivate r'.domain = false := by rw [h.lexical r' hr' hs']; rfl
  have : Std.Symm fun r r' : Renaming => Allocator.isHardPrivate r.domain = false →
      Allocator.isHardPrivate r'.domain = false → r.target ≠ r'.target :=
    ⟨fun _ _ h h₁ h₂ heq => h h₂ h₁ heq.symm⟩
  exact hsettled.sound.targets.forall hr' hr (fun heq => hne (congrArg Renaming.symbol heq))
    hhard' hhard

/-- **Symbols on the way out to a scope and those of the scope stay apart.** -/
theorem not_renames (h : Safe p plan) (hs : s ∈ (p.scope home).symbols)
    (hs' : s' ∈ (p.scope t).symbols) (hhome : home ∈ p.outward t) (hne : s' ≠ s)
    (heq : plan.finalName p s' = plan.finalName p s) : ¬ plan.Renames s ∧ ¬ plan.Renames s' := by
  by_cases hmoves : plan.Renames s <;> by_cases hmoves' : plan.Renames s'
  · exact absurd heq (h.finalName_ne_finalName hs hs' hne hmoves hmoves')
  · exact absurd heq (h.name_ne_finalName hs hmoves
      (Program.mem_neighbours_of_inside h.wellScoped hhome hs') hmoves')
  · exact absurd heq.symm (h.name_ne_finalName hs' hmoves'
      (Program.mem_neighbours_of_outside hhome hs) hmoves)
  · exact ⟨hmoves, hmoves'⟩

/-- **A new name denotes what the old one did.** -/
theorem denotes (h : Safe p plan) (table : Scope → Table String SymbolId) {name : String}
    (htable : ∀ {t : ScopeId} {x : String} {s'}, (table (p.scope t))[x]? = some s' →
      (p.scope t).Knows x s')
    (hlookup : ((p.outward c).findSome? fun t => (table (p.scope t))[name]?) = some s) :
    p.Denotes table (plan.finalName p) c (plan.finalName p s) s := by
  obtain ⟨inner, home, outer, houtward, hhome, hinner⟩ := List.findSome?_eq_some_iff.mp hlookup
  refine ⟨rfl, inner, home, outer, houtward, ⟨name, hhome⟩, fun t ht x s' hx heq => ?_⟩
  by_contra hne
  obtain ⟨hs, hname⟩ := h.wellScoped.known (htable hhome)
  obtain ⟨hs', hname'⟩ := h.wellScoped.known (htable hx)
  have hmem : home ∈ p.outward t := Program.mem_outward_of_around h.wellScoped
    (Program.around_of_outwardWithin_eq houtward ht)
  obtain ⟨hstays, hstays'⟩ := h.not_renames hs hs' hmem hne heq
  -- Both keep their names, which are the same, so the lookup found `s'` no later.
  rw [finalName_of_not_renames hstays, finalName_of_not_renames hstays', hname, hname'] at heq
  subst heq
  rcases List.mem_append.mp ht with ht | ht
  · exact nomatch (hinner t ht).symm.trans hx
  · rw [List.mem_singleton.mp ht, hhome] at hx
    exact hne (Option.some.inj hx).symm

theorem noCapture (h : Safe p plan) : p.NoCapture plan where
  apart {c name s} hlookup := by
    have hknows : ∃ home ∈ p.outward c, (p.scope home).Knows name s := by
      rcases hlookup with hlookup | hlookup
      · obtain ⟨home, hhome, hs⟩ := List.exists_of_findSome?_eq_some hlookup
        exact ⟨home, hhome, .inl hs⟩
      · obtain ⟨home, hhome, hs⟩ := List.exists_of_findSome?_eq_some hlookup
        exact ⟨home, hhome, .inr hs⟩
    obtain ⟨home, hhome, hknown⟩ := hknows
    have hs := (h.wellScoped.known hknown).1
    exact ⟨home, hhome, (h.wellScoped.listed hs).2, fun t _ hmem s' hs' hne heq =>
      h.not_renames hs hs' hmem hne heq⟩
  value hlookup := h.denotes Scope.values (fun hx => .inl hx) hlookup
  type hlookup := h.denotes Scope.types (fun hx => .inr hx) hlookup
  unresolved r hr _ _ := by
    obtain ⟨_, a, hsettled⟩ := h.settled
    exact hsettled.sound.unresolved r hr

end Safe
end ManglePlan

/-- **New names capture nothing.** -/
theorem noCapture_planMangle {files : List ParsedFile} {p : Program}
    (h : Program.build files = .ok p) {sel : List FileId} (hsel : ∀ f ∈ sel, f ∈ p.source.fileIds)
    (opts : MangleOptions) : p.NoCapture ((planMangle sel opts).value p) := by
  obtain ⟨src, rfl, hs⟩ := Program.laidOut_of_build h
  have hsource := Program.source_ofSource hs
  exact (ManglePlan.safe_planMangle (Program.wellScoped_ofSource hs) (hsource.symm ▸ hs) hsel).noCapture

/-- A function with a parameter, in which a name is used that nothing declares. -/
def globalUse : ParsedFile where
  path := "main.ts"
  contents := "function twice(num) { return a(num) }".toUTF8
  tree :=
    .node "program" "" true 0 37 [
      .node "function_declaration" "" true 0 37 [
        .node "identifier" "name" true 9 14 [],
        .node "formal_parameters" "parameters" true 14 19 [
          .node "required_parameter" "" true 15 18 [.node "identifier" "pattern" true 15 18 []]],
        .node "statement_block" "body" true 20 37 [
          .node "return_statement" "" true 22 35 [
            .node "call_expression" "" true 29 35 [
              .node "identifier" "function" true 29 30 [],
              .node "arguments" "arguments" true 30 35 [.node "identifier" "" true 31 34 []]]]]]]

theorem noCapture_planMangle_globalUse : ∃ p, Program.build [globalUse] = .ok p ∧
    p.NoCapture ((planMangle [⟨0⟩] {}).value p) := by
  have hbuild := Program.build_singleton globalUse
  refine ⟨_, hbuild, noCapture_planMangle hbuild (fun f hf => ?_) {}⟩
  rw [Program.fileIds_of_build hbuild, List.mem_singleton.mp hf]
  decide

end Moniker
