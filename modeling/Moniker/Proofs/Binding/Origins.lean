/-
# Where symbols come from

Of every symbol that a visit below `r` introduces into a scope, the first
declaration lies below `r`.  If symbols of that scope are being collected, the
symbol is collected, is an alias, or comes from a part of the tree that collects for
itself (`Run.origin`).

A name node declares a symbol of a module scope only in the file of the module, or
where only types are declared (`Run.filed`).  Names that join a member from
another file do not break this, for no symbol of a module scope is ever a member
(`Inner`).
-/

import Moniker.Proofs.Binding.Keeps

namespace Moniker
namespace Binding

variable {src : Source} {file : FileId} {r n d : NodeId} {c : Option ScopeId} {p q : Program}
  {st st' : State} {s : SymbolId} {t : ScopeId}

/-! ### Symbols -/

/-- The first declaration of the symbol. -/
def Heads (p : Program) (s : SymbolId) (d : NodeId) : Prop := (p.symbol s).decls.head? = some d

theorem Heads.grows (h : Program.Grows p q) (hs : s.idx < p.symbols.size) (hd : Heads p s d) :
    Heads q s d := by
  have hne : (p.symbol s).decls ≠ [] := fun h0 => by simp [Heads, h0] at hd
  exact ((h.symbol s hs).head hne).trans hd

theorem Secluded.within {r' : NodeId} (hr : src.Below r r') (h : Secluded src r' d) :
    Secluded src r d := by
  obtain ⟨x, hx, hrest⟩ := h
  exact ⟨x, hr.trans hx, hrest⟩

theorem Secluded.trans {r' : NodeId} (h : Secluded src r r') (hd : src.Below r' d) :
    Secluded src r d := by
  obtain ⟨x, hx, ⟨hkind, hr⟩ | ⟨hkind, body, hbody, hr⟩⟩ := h
  · exact ⟨x, hx, .inl ⟨hkind, hr.trans hd⟩⟩
  · exact ⟨x, hx, .inr ⟨hkind, body, hbody, hr.trans hd⟩⟩

theorem Run.collected_subset (h : Run src file c r st st') : st.1 ⊆ st'.1 := by
  induction h with
  | refl => exact fun _ h => h
  | trans _ _ ih₁ ih₂ => exact fun _ h => ih₂ (ih₁ h)
  | within _ _ ih => exact ih
  | change _ => exact fun _ h => h
  | introduce =>
    split
    · exact fun _ h => List.mem_append_left _ h
    · exact fun _ h => h
  | nested => exact fun _ h => h

/-- A change introduces a symbol into a scope only as an alias. -/
theorem Change.origin (h : Change src file r p q) (hnew : p.symbols.size ≤ s.idx)
    (hlt : s.idx < q.symbols.size) (hscope : (q.symbol s).scope = some t) :
    ∃ d, Heads q s d ∧ src.Below r d ∧ (q.symbol s).isAlias = true := by
  have hadded : ∀ {sym : Symbol}, sym.scope = none → (p.addSymbol sym).symbols.size = q.symbols.size →
      (p.addSymbol sym).symbol s = q.symbol s → False := by
    intro sym hnone hsize hsym
    have hs : s.idx = p.symbols.size := by
      rw [Program.symbols_size_addSymbol] at hsize
      omega
    rw [← hsym, Program.symbol_addSymbol, if_pos hs, hnone] at hscope
    exact nomatch hscope
  cases h with
  | symbol sym hnone _ => exact (hadded hnone rfl rfl).elim
  | alias_ sym n hnone _ _ => exact (hadded hnone rfl rfl).elim
  | newMember tbl text sym n hnone _ _ => exact (hadded hnone rfl rfl).elim
  | import_ sym target n _ _ hdecls halias hn _ =>
    have hs : s = ⟨p.symbols.size⟩ := by
      rw [symbols_size_introduce] at hlt
      exact congrArg SymbolId.mk (by omega)
    have hsym : (introduce p sym target n).symbol s = sym := hs ▸ symbol_introduce
    refine ⟨n, ?_, hn, by rw [hsym]; exact halias⟩
    rw [Heads, hsym, hdecls]
    rfl
  | touch s' f _ | fill s' _ _ | property s' _ _ _ | joinMember _ _ s' _ _ _ _ | join _ _ s' _ _ _ _ _ =>
    refine absurd (lt_of_lt_of_eq hlt ?_) hnew.not_gt
    exact Program.symbols_size_modifySymbol
  | _ => exact absurd hlt hnew.not_gt

/-- **What a visit introduces into a scope is declared below it,** and is collected
unless it is an alias or a part of the tree collects for itself. -/
theorem Run.origin (h : Run src file c r st st') (hnew : st.2.symbols.size ≤ s.idx)
    (hlt : s.idx < st'.2.symbols.size) (hscope : (st'.2.symbol s).scope = some t) :
    ∃ d, Heads st'.2 s d ∧ src.Below r d ∧
      (c = some t → s ∈ st'.1 ∨ (st'.2.symbol s).isAlias = true ∨ Secluded src r d) := by
  induction h with
  | refl => exact absurd hlt hnew.not_gt
  | @trans c r st₁ st₂ st₃ h₁ h₂ ih₁ ih₂ =>
    rcases lt_or_ge s.idx st₂.2.symbols.size with hmid | hmid
    · have hsym := h₂.grows.symbol s hmid
      obtain ⟨d, hd, hbelow, hcollected⟩ := ih₁ hnew hmid (hsym.scope.symm.trans hscope)
      refine ⟨d, hd.grows h₂.grows hmid, hbelow, fun hc => (hcollected hc).imp ?_ (.imp_left ?_)⟩
      · exact fun hs => h₂.collected_subset hs
      · exact fun halias => hsym.traits.meets halias
    · exact ih₂ hmid hlt hscope
  | within hr _ ih =>
    obtain ⟨d, hd, hbelow, hcollected⟩ := ih hnew hlt hscope
    exact ⟨d, hd, hr.trans hbelow, fun hc => (hcollected hc).imp_right
      (.imp_right fun hsec => hsec.within hr)⟩
  | change h =>
    obtain ⟨d, hd, hbelow, halias⟩ := h.origin hnew hlt hscope
    exact ⟨d, hd, hbelow, fun _ => .inr (.inl halias)⟩
  | @introduce c r l p sym target n hsome _ hdecls hn _ =>
    dsimp only at hnew hlt hscope ⊢
    have hs : s = ⟨p.symbols.size⟩ := by
      rw [symbols_size_introduce] at hlt
      exact congrArg SymbolId.mk (by omega)
    have hsym : (Binding.introduce p sym target n).symbol s = sym := hs ▸ symbol_introduce
    rw [hsym, hsome] at hscope
    refine ⟨n, by rw [Heads, hsym, hdecls]; rfl, hn, fun hc => .inl ?_⟩
    rw [if_pos (hc.trans hscope.symm), hs]
    exact List.mem_append_right _ List.mem_cons_self
  | nested s' hsec _ ih =>
    obtain ⟨d, hd, hbelow, _⟩ := ih hnew hlt hscope
    exact ⟨d, hd, hsec.below.trans hbelow, fun _ => .inr (.inr (hsec.trans hbelow))⟩

/-! ### Files -/

/-- The name node may declare the symbol: if that belongs to a module scope, the scope
is that of the node's file, or only types are declared there. -/
def Placed (src : Source) (n : NodeId) (s : SymbolId) (p : Program) : Prop :=
  s.idx < p.symbols.size ∧ ∀ t, (p.symbol s).scope = some t →
    (p.symbol s).has .ambient = true ∨ (t.idx < p.scopes.size ∧
      ((p.scope t).kind = .ofModule → ∃ m, (p.scope t).node = some m ∧ src.fileOf n = src.fileOf m))

instance : Stable (Placed src n s) where
  grows h hp := by
    have hsym := h.symbol s hp.1
    refine ⟨hp.1.trans_le h.symbols_le, fun t ht => ?_⟩
    rw [hsym.scope] at ht
    refine (hp.2 t ht).imp (fun ha => hsym.traits.has ha) fun ⟨hlt, hfile⟩ => ?_
    have hsc := h.scope t hlt
    refine ⟨hlt.trans_le h.scopes_le, ?_⟩
    rwa [hsc.kind, hsc.node]

theorem Inner.placed (h : Inner s p) : Placed src n s p :=
  ⟨h.1, fun t ht => .inr ⟨(h.2 t ht).1, fun hkind => absurd hkind (h.2 t ht).2⟩⟩

theorem inner_of_scope_eq_none (hlt : s.idx < p.symbols.size) (h : (p.symbol s).scope = none) :
    Inner s p :=
  ⟨hlt, fun _ ht => nomatch h.symm.trans ht⟩

theorem Fits.placed {traits : Traits} (hf : Fits src p file traits t)
    (hglobal : OfKind Program.globalScope .global p) (hg : p.Grows q) (hlt : s.idx < q.symbols.size)
    (hscope : (q.symbol s).scope = some t) (htraits : traits.Le (q.symbol s).traits)
    (hfile : src.fileOf n = file) : Placed src n s q := by
  refine ⟨hlt, fun t' ht' => ?_⟩
  obtain rfl : t = t' := Option.some.inj (hscope.symm.trans ht')
  rcases hf with rfl | ha | ⟨m, hm, hmf⟩
  · obtain ⟨hlt, hkind⟩ := Stable.grows hg hglobal
    exact .inr ⟨hlt, fun h => absurd (hkind.symm.trans h) (by decide)⟩
  · exact .inl (htraits.has ha)
  · have hlt : t.idx < p.scopes.size := by
      by_contra hge
      rw [Program.scope_of_size_le (not_lt.mp hge)] at hm
      exact nomatch hm
    refine .inr ⟨hlt.trans_le hg.scopes_le, fun _ => ⟨m, ?_, hfile.trans hmf.symm⟩⟩
    rw [(hg.scope t hlt).node]
    exact hm

/-- Names declare symbols of module scopes in the file of the module only. -/
structure Filed (src : Source) (p : Program) : Prop where
  wellScoped : WellScoped p
  global : OfKind Program.globalScope .global p
  declared : ∀ {n s}, p.declared[n]? = some s → Placed src n s p
  tables : ∀ {t e}, e ∈ (p.table t).entries → Inner e.2 p

/-- What is declared and listed anew must be placed and inner. -/
theorem Filed.of_grows (h : Filed src p) (hg : p.Grows q) (hw : WellScoped q)
    (hd : ∀ {n s}, q.declared[n]? = some s → p.declared[n]? = some s ∨ Placed src n s q)
    (ht : ∀ {t e}, e ∈ (q.table t).entries → e ∈ (p.table t).entries ∨ Inner e.2 q) :
    Filed src q where
  wellScoped := hw
  global := Stable.grows hg h.global
  declared hs := (hd hs).elim (fun hs => Stable.grows hg (h.declared hs)) id
  tables he := (ht he).elim (fun he => Stable.grows hg (h.tables he)) id

theorem declared_markDeclared_cases {k : NodeId} {s' : SymbolId}
    (h : (p.markDeclared k s).declared[n]? = some s') :
    p.declared[n]? = some s' ∨ (n = k ∧ s' = s) := by
  rw [Program.declared_markDeclared] at h
  split at h
  · next heq => exact .inr ⟨heq.symm, (Option.some.inj h).symm⟩
  · exact .inl h

theorem entries_addToTable_cases {u v : TableId} {text : String} {e : String × SymbolId}
    (h : e ∈ ((p.addToTable u text s).table v).entries) :
    e ∈ (p.table v).entries ∨ e = (text, s) := by
  rw [Program.table_addToTable] at h
  split at h
  · rcases List.mem_append.mp h with h | h
    · exact .inl h
    · exact .inr (List.mem_singleton.mp h)
  · exact .inl h

/-- A new symbol of no scope that a name node declares. -/
theorem Filed.declare_inner (h : Filed src p) (hg : p.Grows q) (hw : WellScoped q)
    (hd : q.declared = (p.markDeclared n s).declared)
    (ht : ∀ {t e}, e ∈ (q.table t).entries → e ∈ (p.table t).entries ∨ Inner e.2 q)
    (hs : Inner s q) : Filed src q :=
  h.of_grows hg hw (fun hdecl => by
    rw [hd] at hdecl
    refine (declared_markDeclared_cases hdecl).imp_right fun ⟨_, heq⟩ => ?_
    rw [heq]
    exact hs.placed) ht

theorem Filed.introduce {sym : Symbol} (h : Filed src p) (hscope : sym.scope = some t)
    (howner : sym.owner = none) (hfits : Fits src p file sym.traits t) (hfile : src.fileOf n = file) :
    Filed src (Binding.introduce p sym t n) := by
  have hg := grows_introduce (p := p) sym t n
  refine h.of_grows hg (h.wellScoped.introduce hscope howner) (fun hdecl => ?_) .inl
  refine (declared_markDeclared_cases hdecl).imp_right ?_
  rintro ⟨rfl, rfl⟩
  refine hfits.placed h.global hg ?_ ?_ ?_ hfile
  · rw [symbols_size_introduce]
    exact Nat.lt_succ_self _
  · rw [symbol_introduce, hscope]
  · rw [symbol_introduce]
    exact .refl _

theorem Change.filed (hfile : ∀ n, src.Below r n → src.fileOf n = file)
    (h : Change src file r p q) (hp : Filed src p) : Filed src q := by
  have hg := h.grows
  have hw := h.wellScoped hp.wellScoped
  have hnew : ∀ {sym : Symbol}, sym.scope = none → Inner ⟨p.symbols.size⟩ (p.addSymbol sym) := by
    intro sym hnone
    refine inner_of_scope_eq_none (by simp) ?_
    rw [Program.symbol_addSymbol, if_pos rfl]
    exact hnone
  cases h with
  | scope | markScope | markShape | markClass | markSpecifier | symbol | touch | fill | property
  | module | ambient => exact hp.of_grows hg hw .inl .inl
  | table =>
    refine hp.of_grows hg hw .inl fun {t e} he => ?_
    rw [Program.table_addTable] at he
    split at he
    · exact absurd he List.not_mem_nil
    · exact .inl he
  | alias_ sym n hnone _ _ => exact hp.declare_inner hg hw rfl .inl (hnew hnone)
  | newMember t text sym n hnone _ _ =>
    refine hp.declare_inner hg hw rfl (fun {u e} he => ?_) (hnew hnone)
    refine (entries_addToTable_cases he).imp_right fun heq => ?_
    rw [heq]
    exact hnew hnone
  | joinMember t text s traits n hmem _ =>
    exact hp.declare_inner hg hw rfl .inl (Stable.grows hg (hp.tables hmem))
  | member t text s hs =>
    refine hp.of_grows hg hw .inl fun {u e} he => ?_
    refine (entries_addToTable_cases he).imp_right fun heq => ?_
    rw [heq]
    exact Stable.grows hg hs
  | join target text s traits n hs hn hfits =>
    obtain ⟨hlt, hscope⟩ := hp.wellScoped.listed (hp.wellScoped.own? hs).1
    have hlt' := hlt.trans_le hg.symbols_le
    have hsym : (joinInto p target s traits n).symbol s = (p.symbol s).joined traits n :=
      (Program.symbol_modifySymbol s).trans (if_pos ⟨rfl, hlt⟩)
    refine hp.of_grows hg hw (fun hdecl => ?_) .inl
    refine (declared_markDeclared_cases hdecl).imp_right ?_
    rintro ⟨rfl, rfl⟩
    refine hfits.placed hp.global hg hlt' ?_ ?_ (hfile _ hn)
    · rw [hsym]
      exact hscope
    · rw [hsym]
      exact Traits.le_union_right
  | import_ sym target n hscope howner _ _ hn hfits =>
    exact hp.introduce hscope howner hfits (hfile n hn)

/-- **A visit declares names of a module in its file only.** -/
theorem Run.filed (hs : src.LaidOut) (hr : src.fileOf r = file) (h : Run src file c r st st')
    (hp : Filed src st.2) : Filed src st'.2 := by
  induction h with
  | refl => exact hp
  | trans _ _ ih₁ ih₂ => exact ih₂ hr (ih₁ hr hp)
  | within hr' _ ih => exact ih ((hr'.fileOf_eq hs).trans hr) hp
  | change h => exact h.filed (fun n hn => (hn.fileOf_eq hs).trans hr) hp
  | introduce sym target n hscope howner _ hn hfits =>
    exact hp.introduce hscope howner hfits ((hn.fileOf_eq hs).trans hr)
  | nested s hsec _ ih => exact ih ((hsec.below.fileOf_eq hs).trans hr) hp

end Binding
end Moniker
