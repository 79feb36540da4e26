/-
# The tree of scopes

A program is `WellScoped` if its scopes form a tree that can be walked both ways, the
symbols a scope lists belong to it, and the names it knows denote symbols it lists.
A listed symbol with an owner is a parameter that is a property too: no other
symbol is a lexical binding and a member at once.

Every step of a visit keeps this (`Change.wellScoped`), and so do whole visits
(`Run.wellScoped`) and questions about types (`Extends.wellScoped`).
-/

import Moniker.Proofs.Binding.Run
import Moniker.Proofs.Inquiry

namespace Moniker

/-- The scope knows the symbol under the name, as a value or as a type. -/
def Scope.Knows (sc : Scope) (name : String) (s : SymbolId) : Prop :=
  sc.values[name]? = some s ∨ sc.types[name]? = some s

/-- Scopes form a tree, and what they list and know belongs to them. -/
structure WellScoped (p : Program) : Prop where
  parent_lt : ∀ {c outer}, (p.scope c).parent = some outer →
    outer.idx < c.idx ∧ c.idx < p.scopes.size
  child : ∀ {c outer}, (p.scope c).parent = some outer → c ∈ (p.scope outer).children
  listed : ∀ {c s}, s ∈ (p.scope c).symbols →
    s.idx < p.symbols.size ∧ (p.symbol s).scope = some c
  known : ∀ {c name s}, (p.scope c).Knows name s →
    s ∈ (p.scope c).symbols ∧ (p.symbol s).name = name
  owned : ∀ {c s}, s ∈ (p.scope c).symbols → (p.symbol s).owner ≠ none →
    (p.symbol s).has .parameter = true ∧ (p.symbol s).has .property = true

namespace WellScoped

variable {p q : Program}

theorem own? (h : WellScoped p) {c : ScopeId} {x : String} {s : SymbolId}
    (hs : (p.scope c).own? x = some s) : s ∈ (p.scope c).symbols ∧ (p.symbol s).name = x := by
  rw [Scope.own?] at hs
  cases hv : (p.scope c).values[x]? with
  | some v =>
    rw [hv] at hs
    exact h.known (.inl (hv.trans hs))
  | none =>
    rw [hv] at hs
    exact h.known (.inr hs)

/-- What a symbol keeps if the scopes are to stay well-formed. -/
structure Stays (x y : Symbol) : Prop where
  name : y.name = x.name
  scope : y.scope = x.scope
  traits : x.traits.Le y.traits
  owner : y.owner = x.owner ∨ (y.has .parameter = true ∧ y.has .property = true)

theorem Stays.refl (x : Symbol) : Stays x x := ⟨rfl, rfl, .refl _, .inl rfl⟩

/-- A change that leaves the scopes alone. -/
theorem of_scopes_eq (h : WellScoped p) (hc : q.scopes = p.scopes)
    (hle : p.symbols.size ≤ q.symbols.size)
    (hs : ∀ s : SymbolId, s.idx < p.symbols.size → (p.symbol s).scope ≠ none →
      Stays (p.symbol s) (q.symbol s)) :
    WellScoped q := by
  have hstays : ∀ {c s}, s ∈ (p.scope c).symbols → Stays (p.symbol s) (q.symbol s) := by
    intro c s hl
    obtain ⟨hlt, heq⟩ := h.listed hl
    exact hs s hlt (by rw [heq]; exact Option.some_ne_none c)
  have hscope : ∀ c, q.scope c = p.scope c := fun c => by rw [Program.scope, Program.scope, hc]
  refine ⟨?_, ?_, ?_, ?_, ?_⟩
  · intro c outer hp
    rw [hscope] at hp
    rw [hc]
    exact h.parent_lt hp
  · intro c outer hp
    rw [hscope] at hp ⊢
    exact h.child hp
  · intro c s hl
    rw [hscope] at hl
    obtain ⟨hlt, heq⟩ := h.listed hl
    exact ⟨hlt.trans_le hle, (hstays hl).scope.trans heq⟩
  · intro c x s hv
    rw [hscope] at hv ⊢
    obtain ⟨hl, hname⟩ := h.known hv
    exact ⟨hl, (hstays hl).name.trans hname⟩
  · intro c s hl ho
    rw [hscope] at hl
    have hst := hstays hl
    rcases hst.owner with heq | hboth
    · obtain ⟨hpar, hprop⟩ := h.owned hl (by rwa [← heq])
      exact ⟨hst.traits.has hpar, hst.traits.has hprop⟩
    · exact hboth

theorem of_eq (h : WellScoped p) (hc : q.scopes = p.scopes) (hs : q.symbols = p.symbols) :
    WellScoped q :=
  h.of_scopes_eq hc (by rw [hs]) fun s _ _ => by
    rw [Program.symbol, Program.symbol, hs]
    exact .refl _

theorem addSymbol (h : WellScoped p) (sym : Symbol) : WellScoped (p.addSymbol sym) :=
  h.of_scopes_eq rfl (by simp) fun s hs _ => by
    rw [Program.symbol_addSymbol, if_neg hs.ne]
    exact .refl _

theorem modifySymbol (h : WellScoped p) (s : SymbolId) {f : Symbol → Symbol}
    (hf : s.idx < p.symbols.size → Stays (p.symbol s) (f (p.symbol s))) :
    WellScoped (p.modifySymbol s f) :=
  h.of_scopes_eq rfl (by simp) fun t ht _ => by
    rw [Program.symbol_modifySymbol]
    split
    · next heq =>
      have hid : s = t := congrArg SymbolId.mk heq.1
      exact hid ▸ hf (hid ▸ ht)
    · exact .refl _

/-- A new innermost scope. -/
theorem openScope (h : WellScoped p) {kind : ScopeKind} {outer : ScopeId} {n : NodeId}
    (ho : outer.idx < p.scopes.size) :
    WellScoped
      ((p.addScope { kind := kind, parent := some outer, node := some n }).modifyScope outer
        fun o => { o with children := o.children ++ [⟨p.scopes.size⟩] }) := by
  generalize hsc : ({ kind := kind, parent := some outer, node := some n } : Scope) = sc
  -- The new scope, the scope around it, and all others.
  have hnew : ∀ c : ScopeId, c.idx = p.scopes.size →
      ((p.addScope sc).modifyScope outer fun o => { o with children := o.children ++
        [⟨p.scopes.size⟩] }).scope c = sc := by
    intro c hc
    rw [Program.scope_modifyScope, if_neg (by omega), Program.scope_addScope, if_pos hc]
  have hold : ∀ c : ScopeId, c.idx ≠ p.scopes.size →
      let c' := ((p.addScope sc).modifyScope outer fun o => { o with children := o.children ++
        [⟨p.scopes.size⟩] }).scope c
      (p.scope c).children ⊆ c'.children ∧ c'.parent = (p.scope c).parent ∧
        c'.symbols = (p.scope c).symbols ∧ c'.values = (p.scope c).values ∧
        c'.types = (p.scope c).types := by
    intro c hc
    dsimp only
    rw [Program.scope_modifyScope, Program.scope_addScope, if_neg hc]
    split
    · exact ⟨fun _ hx => List.mem_append_left _ hx, rfl, rfl, rfl, rfl⟩
    · exact ⟨fun _ hx => hx, rfl, rfl, rfl, rfl⟩
  have hempty : sc.symbols = [] ∧ sc.values = {} ∧ sc.types = {} ∧ sc.parent = some outer := by
    subst hsc
    exact ⟨rfl, rfl, rfl, rfl⟩
  have hsyms : ∀ {c : ScopeId} {s : SymbolId},
      s ∈ (((p.addScope sc).modifyScope outer fun o => { o with children := o.children ++
        [⟨p.scopes.size⟩] }).scope c).symbols → s ∈ (p.scope c).symbols := by
    intro c s hs
    rcases eq_or_ne c.idx p.scopes.size with hc | hc
    · rw [hnew c hc, hempty.1] at hs
      exact nomatch hs
    · rwa [(hold c hc).2.2.1] at hs
  refine ⟨?_, ?_, ?_, ?_, ?_⟩
  · intro c o hp
    rw [Program.scopes_size_modifyScope, Program.scopes_size_addScope]
    rcases eq_or_ne c.idx p.scopes.size with hc | hc
    · rw [hnew c hc, hempty.2.2.2] at hp
      rw [← Option.some.inj hp]
      omega
    · rw [(hold c hc).2.1] at hp
      have := h.parent_lt hp
      omega
  · intro c o hp
    rcases eq_or_ne c.idx p.scopes.size with hc | hc
    · rw [hnew c hc, hempty.2.2.2] at hp
      rw [← Option.some.inj hp, Program.scope_modifyScope, if_pos ⟨rfl, by simp; omega⟩]
      have hid : c = ⟨p.scopes.size⟩ := congrArg ScopeId.mk hc
      rw [hid]
      exact List.mem_append_right _ List.mem_cons_self
    · rw [(hold c hc).2.1] at hp
      have ho : o.idx ≠ p.scopes.size := by
        have := h.parent_lt hp
        omega
      exact (hold o ho).1 (h.child hp)
  · intro c s hs
    exact h.listed (hsyms hs)
  · intro c x s hk
    rcases eq_or_ne c.idx p.scopes.size with hc | hc
    · rw [hnew c hc, Scope.Knows, hempty.2.1, hempty.2.2.1] at hk
      simp at hk
    · rw [(hold c hc).2.2.1]
      rw [Scope.Knows, (hold c hc).2.2.2.1, (hold c hc).2.2.2.2] at hk
      exact h.known hk
  · intro c s hs ho
    exact h.owned (hsyms hs) ho

/-- A scope that comes to know more, all of it listed and its own. -/
theorem modifyScope (h : WellScoped p) (target : ScopeId) {f : Scope → Scope}
    (hf : ∀ x : Scope, (f x).parent = x.parent ∧ (f x).children = x.children)
    (hsymbols : ∀ s ∈ (f (p.scope target)).symbols, s ∈ (p.scope target).symbols ∨
      (s.idx < p.symbols.size ∧ (p.symbol s).scope = some target ∧ (p.symbol s).owner = none))
    (hknown : ∀ name s, (f (p.scope target)).Knows name s →
      s ∈ (f (p.scope target)).symbols ∧ (p.symbol s).name = name) :
    WellScoped (p.modifyScope target f) := by
  have hcases := Program.scope_modifyScope_cases (p := p) target f
  have hshape : ∀ c, ((p.modifyScope target f).scope c).parent = (p.scope c).parent ∧
      ((p.modifyScope target f).scope c).children = (p.scope c).children := by
    intro c
    rcases hcases c with heq | ⟨rfl, heq⟩
    · rw [heq]
      exact ⟨rfl, rfl⟩
    · rw [heq]
      exact hf _
  have hsyms : ∀ {c s}, s ∈ ((p.modifyScope target f).scope c).symbols →
      s ∈ (p.scope c).symbols ∨
        (s.idx < p.symbols.size ∧ (p.symbol s).scope = some c ∧ (p.symbol s).owner = none) := by
    intro c s hs
    rcases hcases c with heq | ⟨rfl, heq⟩
    · rw [heq] at hs
      exact .inl hs
    · rw [heq] at hs
      exact hsymbols s hs
  refine ⟨?_, ?_, ?_, ?_, ?_⟩
  · intro c outer hp
    rw [(hshape c).1] at hp
    rw [Program.scopes_size_modifyScope]
    exact h.parent_lt hp
  · intro c outer hp
    rw [(hshape c).1] at hp
    rw [(hshape outer).2]
    exact h.child hp
  · intro c s hs
    rcases hsyms hs with hs | ⟨hlt, hscope, _⟩
    · exact h.listed hs
    · exact ⟨hlt, hscope⟩
  · intro c x s hk
    rcases hcases c with heq | ⟨rfl, heq⟩
    · rw [heq] at hk ⊢
      exact h.known hk
    · rw [heq] at hk ⊢
      exact hknown x s hk
  · intro c s hs ho
    rcases hsyms hs with hs | ⟨_, _, hnone⟩
    · exact h.owned hs ho
    · exact absurd hnone ho

theorem getElem?_insertIfNew {m : Table String SymbolId} {cond : Bool} {name x : String}
    {id s : SymbolId} (h : (if cond then m.insertIfNew name id else m)[x]? = some s) :
    m[x]? = some s ∨ (s = id ∧ name = x) := by
  split at h
  · rw [Table.getElem?_insertIfNew] at h
    split at h
    · next heq => exact .inr ⟨(Option.some.inj h).symm, by simpa using heq.1⟩
    · exact .inl h
  · exact .inl h

/-- A symbol becomes known under its own name only. -/
theorem knows_register {sc : Scope} {id s : SymbolId} {sym : Symbol} {x : String}
    (h : (sc.register id sym).Knows x s) : sc.Knows x s ∨ (s = id ∧ sym.name = x) := by
  rcases h with h | h
  · rcases getElem?_insertIfNew h with h | h
    · exact .inl (.inl h)
    · exact .inr h
  · rcases getElem?_insertIfNew h with h | h
    · exact .inl (.inr h)
    · exact .inr h

/-- A listed symbol may become known under its name. -/
theorem register (h : WellScoped p) {target : ScopeId} {s : SymbolId} {sym : Symbol}
    (hs : s ∈ (p.scope target).symbols) (hname : (p.symbol s).name = sym.name) :
    WellScoped (p.modifyScope target fun sc => sc.register s sym) := by
  refine h.modifyScope target (fun _ => ⟨rfl, rfl⟩) (fun _ ht => .inl ht) fun x t ht => ?_
  rcases knows_register ht with ht | ⟨rfl, hx⟩
  · exact h.known ht
  · exact ⟨hs, hname.trans hx⟩

/-- A new symbol may be declared in its scope. -/
theorem introduce (h : WellScoped p) {sym : Symbol} {target : ScopeId} {n : NodeId}
    (hscope : sym.scope = some target) (howner : sym.owner = none) :
    WellScoped (Binding.introduce p sym target n) := by
  have hsym : (p.addSymbol sym).symbol ⟨p.symbols.size⟩ = sym := by
    rw [Program.symbol_addSymbol, if_pos rfl]
  suffices hdecl : WellScoped ((p.addSymbol sym).modifyScope target fun sc =>
      sc.declare ⟨p.symbols.size⟩ sym) from hdecl.of_eq rfl rfl
  refine (h.addSymbol sym).modifyScope target (fun _ => ⟨rfl, rfl⟩) ?_ ?_
  · intro s hs
    rcases List.mem_append.mp hs with hs | hs
    · exact .inl hs
    · rw [List.mem_singleton.mp hs, hsym]
      exact .inr ⟨by simp, hscope, howner⟩
  · intro x s hs
    rcases knows_register hs with hs | ⟨rfl, hx⟩
    · obtain ⟨hl, hname⟩ := (h.addSymbol sym).known hs
      exact ⟨List.mem_append_left _ hl, hname⟩
    · exact ⟨List.mem_append_right _ List.mem_cons_self, by rw [hsym]; exact hx⟩

theorem joined (h : WellScoped p) (s : SymbolId) (traits : Traits) (n : NodeId) :
    WellScoped ((p.modifySymbol s fun x => x.joined traits n).markDeclared n s) := by
  have hmod : WellScoped (p.modifySymbol s fun x => x.joined traits n) :=
    h.modifySymbol s fun _ => ⟨rfl, rfl, Traits.le_union_left, .inl rfl⟩
  exact hmod.of_eq rfl rfl

end WellScoped

namespace Binding

variable {src : Source} {file : FileId} {r : NodeId} {c : Option ScopeId} {p q : Program}
  {st st' : State}

theorem Change.wellScoped (h : Change src file r p q) (hp : WellScoped p) : WellScoped q := by
  cases h with
  | scope kind outer n ho _ => exact hp.openScope ho
  | markScope | markShape | markClass | markSpecifier | table | member | module | ambient =>
    exact hp.of_eq rfl rfl
  | symbol sym _ _ => exact hp.addSymbol sym
  | touch s f hf =>
    refine hp.modifySymbol s fun _ => ?_
    have hcore := hf (p.symbol s)
    exact ⟨hcore.name, hcore.scope, by rw [hcore.traits]; exact .refl _, .inl hcore.owner⟩
  | fill s n _ =>
    refine hp.modifySymbol s fun _ => ?_
    split
    · exact ⟨rfl, rfl, .refl _, .inl rfl⟩
    · exact .refl _
  | alias_ sym n _ _ _ => exact (hp.addSymbol sym).of_eq rfl rfl
  | newMember t text sym n _ _ _ => exact (hp.addSymbol sym).of_eq rfl rfl
  | joinMember t text s traits n _ _ => exact hp.joined s traits n
  | property s cls isPrivate hpar =>
    refine hp.modifySymbol s fun _ =>
      ⟨rfl, rfl, Traits.le_insert.trans Traits.le_insertIf, .inr ⟨?_, ?_⟩⟩
    · exact (Traits.le_insert.trans Traits.le_insertIf).has hpar
    · exact Traits.le_insertIf.has Traits.has_insert
  | join target text s traits n hs _ _ =>
    exact (hp.joined s traits n).register (hp.own? hs).1 rfl
  | import_ sym target n hscope howner _ _ _ _ => exact hp.introduce hscope howner

/-- **A visit keeps the scopes well-formed.** -/
theorem Run.wellScoped (h : Run src file c r st st') (hp : WellScoped st.2) :
    WellScoped st'.2 := by
  induction h with
  | refl => exact hp
  | trans _ _ ih₁ ih₂ => exact ih₂ (ih₁ hp)
  | within _ _ ih => exact ih hp
  | change h => exact h.wellScoped hp
  | introduce sym target n hscope howner _ _ _ => exact hp.introduce hscope howner
  | nested s _ _ ih => exact ih hp

end Binding

/-- **Questions about types keep the scopes well-formed.** -/
theorem Program.Extends.wellScoped {src : Source} {p q : Program} (h : Program.Extends src p q)
    (hp : WellScoped p) : WellScoped q := by
  refine hp.of_scopes_eq h.scopes_eq h.scopes_kept.1 fun s hs hne => ?_
  have hkept := h.symbol_kept hs
  exact ⟨hkept.name, hkept.scope, by rw [hkept.traits hne]; exact .refl _, .inl hkept.owner⟩

end Moniker
