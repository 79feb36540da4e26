/-
# The two name spaces

A scope knows as values only symbols that a value name can denote, and as types only
symbols that a type name can denote (`SpaceSound`).  A symbol that becomes something else
as well stays in the name space it was in, so every step of a visit keeps this
(`Change.spaceSound`), and so do questions about types (`Extends.spaceSound`).

Members of enums, properties and methods are in neither.
-/

import Moniker.Proofs.Binding.WellScoped

namespace Moniker

/-- The scope knows the symbol under the name, in one of the name spaces. -/
inductive Scope.KnowsAs (sc : Scope) (name : String) (s : SymbolId) : Traits → Prop
  | value (h : sc.values[name]? = some s) : KnowsAs sc name s Traits.value
  | type (h : sc.types[name]? = some s) : KnowsAs sc name s Traits.type

/-- The symbol is there and can be denoted by names of the space. -/
def Program.HasSpace (p : Program) (space : Traits) (s : SymbolId) : Prop :=
  s.idx < p.symbols.size ∧ (p.symbol s).isAny space = true

/-- Scopes know values as values and types as types. -/
def SpaceSound (p : Program) : Prop :=
  ∀ c name s space, (p.scope c).KnowsAs name s space → p.HasSpace space s

variable {p q : Program} {sc sc' : Scope} {s id : SymbolId} {sym : Symbol} {space : Traits}
  {name : String}

theorem Program.HasSpace.grows (h : p.HasSpace space s) (hg : p.Grows q) : q.HasSpace space s :=
  ⟨h.1.trans_le hg.symbols_le, (hg.symbol s h.1).traits.meets h.2⟩

theorem Scope.KnowsAs.knows (h : sc.KnowsAs name s space) : sc.Knows name s := by
  cases h with
  | value h => exact .inl h
  | type h => exact .inr h

theorem Scope.KnowsAs.congr (h : sc.KnowsAs name s space) (hvalues : sc'.values = sc.values)
    (htypes : sc'.types = sc.types) : sc'.KnowsAs name s space := by
  cases h with
  | value h => exact .value (hvalues ▸ h)
  | type h => exact .type (htypes ▸ h)

/-- A symbol that is registered becomes known in its name spaces only. -/
theorem knowsAs_register (h : (sc.register id sym).KnowsAs name s space) :
    sc.KnowsAs name s space ∨ (s = id ∧ sym.isAny space = true) := by
  have hinsert : ∀ {m : Table String SymbolId} {space : Traits},
      (if sym.isAny space then m.insertIfNew sym.name id else m)[name]? = some s →
        m[name]? = some s ∨ (s = id ∧ sym.isAny space = true) := by
    intro m space hs
    by_cases hspace : sym.isAny space = true
    · exact (WellScoped.getElem?_insertIfNew hs).imp_right fun h => ⟨h.1, hspace⟩
    · rw [if_neg hspace] at hs
      exact .inl hs
  cases h with
  | value h => exact (hinsert h).imp_left .value
  | type h => exact (hinsert h).imp_left .type

namespace SpaceSound

/-- Whatever scopes come to know must be in its name space. -/
theorem of_grows (h : SpaceSound p) (hg : p.Grows q)
    (hnew : ∀ c name s space, (q.scope c).KnowsAs name s space →
      (p.scope c).KnowsAs name s space ∨ q.HasSpace space s) : SpaceSound q := by
  intro c name s space hs
  obtain hs | hs := hnew c name s space hs
  · exact (h c name s space hs).grows hg
  · exact hs

/-- A change that leaves the scopes alone. -/
theorem of_scopes_eq (h : SpaceSound p) (hg : p.Grows q) (hc : q.scopes = p.scopes) :
    SpaceSound q := by
  refine h.of_grows hg fun c name s space hs => .inl ?_
  rwa [Program.scope, hc] at hs

/-- A new innermost scope knows nothing. -/
theorem openScope (h : SpaceSound p) {kind : ScopeKind} {outer : ScopeId} {n : NodeId}
    (hg : p.Grows ((p.addScope { kind := kind, parent := some outer, node := some n }).modifyScope
      outer fun o => { o with children := o.children ++ [⟨p.scopes.size⟩] })) :
    SpaceSound ((p.addScope { kind := kind, parent := some outer, node := some n }).modifyScope outer
      fun o => { o with children := o.children ++ [⟨p.scopes.size⟩] }) := by
  refine h.of_grows hg fun c name s space hs => .inl ?_
  obtain ⟨-, hvalues, htypes⟩ :=
    Program.names_openScope { kind := kind, parent := some outer, node := some n } ⟨rfl, rfl, rfl⟩
      outer c
  exact hs.congr hvalues.symm htypes.symm

/-- A scope may register a symbol of the program as what it is. -/
theorem register (h : SpaceSound p) {target : ScopeId} (hs : s.idx < p.symbols.size)
    {f : Scope → Scope} (hf : ∀ x : Scope, x.Grows (f x))
    (hregister : ∃ x : Scope, x.values = (p.scope target).values ∧
      x.types = (p.scope target).types ∧ f (p.scope target) = x.register s (p.symbol s)) :
    SpaceSound (p.modifyScope target f) := by
  obtain ⟨x, hvalues, htypes, hx⟩ := hregister
  refine h.of_grows (.modifyScope target hf) fun c name t space ht => ?_
  rw [Program.scope_modifyScope] at ht
  split at ht
  · next heq =>
    obtain rfl : c = target := congrArg ScopeId.mk heq.1.symm
    rw [hx] at ht
    obtain ht | ⟨rfl, hspace⟩ := knowsAs_register ht
    · exact .inl (ht.congr hvalues.symm htypes.symm)
    · exact .inr ⟨hs, hspace⟩
  · exact .inl ht

theorem introduce (h : SpaceSound p) (sym : Symbol) (target : ScopeId) (n : NodeId) :
    SpaceSound (Binding.introduce p sym target n) := by
  have hsym : (p.addSymbol sym).symbol ⟨p.symbols.size⟩ = sym := by
    rw [Program.symbol_addSymbol, if_pos rfl]
  have hadded : SpaceSound (p.addSymbol sym) := h.of_scopes_eq (.addSymbol sym) rfl
  suffices hdecl : SpaceSound ((p.addSymbol sym).modifyScope target fun sc =>
      sc.declare ⟨p.symbols.size⟩ sym) from
    hdecl.of_scopes_eq (.of_eq rfl rfl rfl) rfl
  refine @SpaceSound.register _ ⟨p.symbols.size⟩ hadded target (by simp) _ (fun _ => .declare _ sym)
    ⟨{ p.scope target with symbols := (p.scope target).symbols ++ [⟨p.symbols.size⟩] }, rfl, rfl, ?_⟩
  rw [hsym]
  rfl

end SpaceSound

namespace Binding

variable {src : Source} {file : FileId} {r : NodeId} {c : Option ScopeId} {st st' : State}

theorem Change.spaceSound (h : Change src file r p q) (hw : WellScoped p) (hp : SpaceSound p) :
    SpaceSound q := by
  have hg := h.grows
  cases h with
  | scope => exact hp.openScope hg
  | markScope | markShape | markClass | markSpecifier | table | member | module | ambient
  | symbol | touch | fill | alias_ | newMember | joinMember | property =>
    exact hp.of_scopes_eq hg rfl
  | import_ sym target n => exact hp.introduce sym target n
  | join target text s traits n hs =>
    have hlt : s.idx < (p.modifySymbol s fun x => x.joined traits n).symbols.size := by
      rw [Program.symbols_size_modifySymbol]
      exact (hw.listed (hw.own? hs).1).1
    have hjoined : SpaceSound ((p.modifySymbol s fun x => x.joined traits n).markDeclared n s) :=
      hp.of_scopes_eq ((Program.Grows.modifySymbol s fun _ => .joined traits n).trans
        (.of_eq rfl rfl rfl)) rfl
    exact hjoined.register hlt (fun _ => .register _ _) ⟨p.scope target, rfl, rfl, rfl⟩

/-- **A visit keeps the name spaces apart.** -/
theorem Run.spaceSound (h : Run src file c r st st') (hw : WellScoped st.2)
    (hp : SpaceSound st.2) : SpaceSound st'.2 := by
  induction h with
  | refl => exact hp
  | trans h₁ _ ih₁ ih₂ => exact ih₂ (h₁.wellScoped hw) (ih₁ hw hp)
  | within _ _ ih => exact ih hw hp
  | change h => exact h.spaceSound hw hp
  | introduce sym target n => exact hp.introduce sym target n
  | nested s _ _ ih => exact ih hw hp

end Binding

/-- **Questions about types keep the name spaces apart.** What a scope knows it lists, so
it belongs to a scope and keeps its traits. -/
theorem Program.Extends.spaceSound {src : Source} (h : Program.Extends src p q)
    (hw : WellScoped p) (hp : SpaceSound p) : SpaceSound q := by
  intro c name s space hs
  rw [Program.scope, h.scopes_eq] at hs
  have hspace := hp c name s space hs
  have hsome : (p.symbol s).scope ≠ none := by
    rw [(hw.listed (hw.known hs.knows).1).2]
    exact Option.some_ne_none c
  refine ⟨hspace.1.trans_le h.scopes_kept.1, ?_⟩
  rw [Symbol.isAny, (h.symbol_kept hspace.1).traits hsome]
  exact hspace.2

end Moniker
