/-
# What name nodes declare

A name node that declares a symbol is one of its declarations and spells its name
(`Declares`), and what belongs to a scope is listed there exactly once (`ListedOnce`).

Symbols are declared by variables, parameters, classes, enums, namespaces, imports, ambient
modules and clauses of exports, and a visit of any tree is made of the same few steps, so it
is enough that each step keeps both (`Change.declSound`).  A name joins a symbol that it
finds in a scope or a table under the text it spells, so what these hold must have the name
it is held under.  Keys of object literals are declared later, when the types of the literals
are asked for, and in the same way (`Extends.declared_new`).

Together with what is known of scopes this is the index of declarations
(`Program.declarationsIndexed_of_build`).
-/

import Moniker.Proofs.Binding.Origins
import Moniker.Proofs.Lookup

namespace Moniker
namespace Binding

open Program (Grows)

variable {src : Source} {file : FileId} {r n : NodeId} {c : Option ScopeId} {p q : Program}
  {s : SymbolId} {t : ScopeId} {sym : Symbol} {name : String} {st st' : State}

/-- The node is a declaration of the symbol and spells its name. -/
structure Declares (src : Source) (n : NodeId) (s : SymbolId) (p : Program) : Prop where
  lt : s.idx < p.symbols.size
  mem : n ∈ (p.symbol s).decls
  spells : src.Spells n (p.symbol s).name

/-- The symbol is there and has the name. -/
def Named (name : String) (s : SymbolId) (p : Program) : Prop :=
  s.idx < p.symbols.size ∧ (p.symbol s).name = name

/-- What belongs to a scope is listed there once. -/
def ListedOnce (p : Program) : Prop :=
  ∀ s c, (p.symbol s).scope = some c → (p.scope c).symbols.count s = 1

/-- Names declare what they spell, tables hold members under their names, and scopes list
what belongs to them. -/
structure DeclSound (src : Source) (p : Program) : Prop where
  wellScoped : WellScoped p
  declared : ∀ {n s}, p.declared[n]? = some s → Declares src n s p
  tables : ∀ {t e}, e ∈ (p.table t).entries → Named e.1 e.2 p
  once : ListedOnce p

instance : Stable (Declares src n s) where
  grows h hd := by
    have hsym := h.symbol s hd.lt
    exact ⟨hd.lt.trans_le h.symbols_le, hsym.decls hd.mem, hsym.name ▸ hd.spells⟩

instance : Stable (Named name s) where
  grows h hn := ⟨hn.1.trans_le h.symbols_le, (h.symbol s hn.1).name.trans hn.2⟩

/-! ### Names -/

/-- A new symbol is declared by its only declaration. -/
theorem Declares.added (hdecls : sym.decls = [n]) (hspells : src.Spells n sym.name)
    (hq : q.symbols = (p.addSymbol sym).symbols) : Declares src n ⟨p.symbols.size⟩ q := by
  have hsym : q.symbol ⟨p.symbols.size⟩ = sym := by
    rw [Program.symbol, hq]
    exact (Program.symbol_addSymbol _).trans (if_pos rfl)
  refine ⟨?_, ?_, ?_⟩
  · rw [hq, Program.symbols_size_addSymbol]
    exact Nat.lt_succ_self _
  · rw [hsym, hdecls]
    exact List.mem_cons_self
  · rwa [hsym]

/-- A name that joins a symbol of its name declares it. -/
theorem Declares.joined {traits : Traits} (hs : Named name s p) (hspells : src.Spells n name)
    (hq : q.symbols = (p.modifySymbol s fun x => x.joined traits n).symbols) :
    Declares src n s q := by
  have hsym : q.symbol s = (p.symbol s).joined traits n := by
    rw [Program.symbol, hq]
    exact (Program.symbol_modifySymbol s).trans (if_pos ⟨rfl, hs.1⟩)
  refine ⟨?_, ?_, ?_⟩
  · rw [hq, Program.symbols_size_modifySymbol]
    exact hs.1
  · rw [hsym]
    exact List.mem_append_right _ List.mem_cons_self
  · rw [hsym]
    exact (show ((p.symbol s).joined traits n).name = name from hs.2) ▸ hspells

/-! ### Scopes -/

/-- A change that neither lists symbols nor puts any into a scope. -/
theorem ListedOnce.of_eq (h : ListedOnce p) (hc : ∀ c, (q.scope c).symbols = (p.scope c).symbols)
    (hs : ∀ s c, (q.symbol s).scope = some c → (p.symbol s).scope = some c) : ListedOnce q := by
  intro s c hscope
  rw [hc]
  exact h s c (hs s c hscope)

/-- A new symbol is listed in its scope, where nothing has its number. -/
theorem ListedOnce.introduce (h : ListedOnce p) (hw : WellScoped p) (hscope : sym.scope = some t)
    (ht : t.idx < p.scopes.size) : ListedOnce (Binding.introduce p sym t n) := by
  have hlisted : ∀ c, ((Binding.introduce p sym t n).scope c).symbols =
      if c = t then (p.scope c).symbols ++ [⟨p.symbols.size⟩] else (p.scope c).symbols := by
    intro c
    refine (congrArg Scope.symbols (Program.scope_modifyScope c)).trans ?_
    by_cases hct : c = t
    · subst hct
      rw [if_pos ⟨rfl, ht⟩, if_pos rfl]
      rfl
    · rw [if_neg (fun hid => hct (congrArg ScopeId.mk hid.1.symm)), if_neg hct]
      rfl
  have hfresh : ∀ c, (p.scope c).symbols.count ⟨p.symbols.size⟩ = 0 := fun c =>
    List.count_eq_zero_of_not_mem fun hmem => (hw.listed hmem).1.ne rfl
  intro s c hs
  rw [hlisted]
  by_cases hnew : s = ⟨p.symbols.size⟩
  · subst hnew
    rw [symbol_introduce, hscope] at hs
    rw [if_pos (Option.some.inj hs).symm, List.count_append, hfresh, List.count_singleton_self]
  · have hold : (p.symbol s).scope = some c := by
      rw [show (Binding.introduce p sym t n).symbol s = _ from Program.symbol_addSymbol s,
        if_neg (fun hid => hnew (congrArg SymbolId.mk hid))] at hs
      exact hs
    split
    · rw [List.count_append, h s c hold, List.count_singleton, if_neg (by simpa using Ne.symm hnew)]
    · exact h s c hold

theorem scope_of_addSymbol (hnone : sym.scope = none) (s : SymbolId) (c : ScopeId)
    (h : ((p.addSymbol sym).symbol s).scope = some c) : (p.symbol s).scope = some c := by
  rw [Program.symbol_addSymbol] at h
  split at h
  · exact nomatch hnone.symm.trans h
  · exact h

theorem scope_of_modifySymbol {f : Symbol → Symbol} {m : SymbolId}
    (hf : ∀ x : Symbol, (f x).scope = x.scope) (s : SymbolId) (c : ScopeId)
    (h : ((p.modifySymbol m f).symbol s).scope = some c) : (p.symbol s).scope = some c := by
  rw [Program.symbol_modifySymbol] at h
  split at h
  · exact (hf _).symm.trans h
  · exact h

/-- **A step of a visit lists what it puts into a scope.** -/
theorem Change.listedOnce (h : Change src file r p q) (hw : WellScoped p) (hp : ListedOnce p) :
    ListedOnce q := by
  cases h with
  | scope kind outer n ho _ =>
    exact hp.of_eq (fun c => (Program.names_openScope _ ⟨rfl, rfl, rfl⟩ outer c).1) fun _ _ h => h
  | markScope | markShape | markClass | markSpecifier | table | member | module | ambient =>
    exact hp.of_eq (fun _ => rfl) fun _ _ h => h
  | symbol sym hnone _ => exact hp.of_eq (fun _ => rfl) (scope_of_addSymbol hnone)
  | alias_ sym n hnone => exact hp.of_eq (fun _ => rfl) (scope_of_addSymbol hnone)
  | newMember t text sym n hnone => exact hp.of_eq (fun _ => rfl) (scope_of_addSymbol hnone)
  | touch s f hf => exact hp.of_eq (fun _ => rfl) (scope_of_modifySymbol fun x => (hf x).scope)
  | fill s n _ =>
    refine hp.of_eq (fun _ => rfl) (scope_of_modifySymbol fun x => ?_)
    split <;> rfl
  | joinMember | property => exact hp.of_eq (fun _ => rfl) (scope_of_modifySymbol fun _ => rfl)
  | join target text s traits n =>
    refine hp.of_eq (fun c => ?_) (scope_of_modifySymbol fun _ => rfl)
    refine (congrArg Scope.symbols (Program.scope_modifyScope c)).trans ?_
    split <;> rfl
  | import_ sym target n hscope _ _ _ _ _ _ hlt => exact hp.introduce hw hscope hlt

/-! ### Visits -/

namespace DeclSound

/-- What is declared and listed anew must have the right name. -/
theorem of_grows (h : DeclSound src p) (hg : p.Grows q) (hw : WellScoped q) (ho : ListedOnce q)
    (hd : ∀ {n s}, q.declared[n]? = some s → p.declared[n]? = some s ∨ Declares src n s q)
    (ht : ∀ {t e}, e ∈ (q.table t).entries → e ∈ (p.table t).entries ∨ Named e.1 e.2 q) :
    DeclSound src q where
  wellScoped := hw
  declared hs := (hd hs).elim (fun hs => Stable.grows hg (h.declared hs)) id
  tables he := (ht he).elim (fun he => Stable.grows hg (h.tables he)) id
  once := ho

/-- One more name declares something. -/
theorem declare (h : DeclSound src p) (hg : p.Grows q) (hw : WellScoped q) (ho : ListedOnce q)
    (hd : q.declared = (p.markDeclared n s).declared)
    (ht : ∀ {t e}, e ∈ (q.table t).entries → e ∈ (p.table t).entries ∨ Named e.1 e.2 q)
    (hs : Declares src n s q) : DeclSound src q :=
  h.of_grows hg hw ho (fun hdecl => by
    rw [hd] at hdecl
    refine (declared_markDeclared_cases hdecl).imp_right ?_
    rintro ⟨rfl, rfl⟩
    exact hs) ht

theorem introduce (h : DeclSound src p) (hscope : sym.scope = some t) (howner : sym.owner = none)
    (hdecls : sym.decls = [n]) (hspells : src.Spells n sym.name) (ht : t.idx < p.scopes.size) :
    DeclSound src (Binding.introduce p sym t n) :=
  h.declare (grows_introduce sym t n) (h.wellScoped.introduce hscope howner)
    (h.once.introduce h.wellScoped hscope ht) rfl .inl (.added hdecls hspells rfl)

end DeclSound

/-- **A step of a visit keeps names and what they declare together.** -/
theorem Change.declSound (h : Change src file r p q) (hp : DeclSound src p) : DeclSound src q := by
  have hg := h.grows
  have hw := h.wellScoped hp.wellScoped
  have ho := h.listedOnce hp.wellScoped hp.once
  cases h with
  | scope | markScope | markShape | markClass | markSpecifier | symbol | touch | fill | property
  | module | ambient => exact hp.of_grows hg hw ho .inl .inl
  | table =>
    refine hp.of_grows hg hw ho .inl fun {t e} he => ?_
    rw [Program.table_addTable] at he
    split at he
    · exact absurd he List.not_mem_nil
    · exact .inl he
  | alias_ sym n _ hdecls _ hspells =>
    exact hp.declare hg hw ho rfl .inl (.added hdecls hspells rfl)
  | newMember t text sym n _ hdecls _ hspells hname =>
    have hsym : (p.addSymbol sym).symbol ⟨p.symbols.size⟩ = sym :=
      (Program.symbol_addSymbol _).trans (if_pos rfl)
    refine hp.declare hg hw ho rfl (fun {u e} he => ?_) (.added hdecls (hname ▸ hspells) rfl)
    refine (entries_addToTable_cases he).imp_right fun heq => ?_
    rw [heq]
    exact ⟨Program.symbols_size_addSymbol.ge, (congrArg Symbol.name hsym).trans hname⟩
  | joinMember t text s traits n hmem _ hspells =>
    exact hp.declare hg hw ho rfl .inl (.joined (hp.tables hmem) hspells rfl)
  | member t text s hs hname =>
    refine hp.of_grows hg hw ho .inl fun {u e} he => ?_
    refine (entries_addToTable_cases he).imp_right fun heq => ?_
    rw [heq]
    exact ⟨hs.1, hname⟩
  | join target text s traits n hs _ _ hspells =>
    obtain ⟨hlisted, hname⟩ := hp.wellScoped.own? hs
    exact hp.declare hg hw ho rfl .inl
      (.joined ⟨(hp.wellScoped.listed hlisted).1, hname⟩ hspells rfl)
  | import_ sym target n hscope howner hdecls _ _ _ hspells hlt =>
    exact hp.introduce hscope howner hdecls hspells hlt

/-- **A visit keeps names and what they declare together.** -/
theorem Run.declSound (h : Run src file c r st st') (hp : DeclSound src st.2) :
    DeclSound src st'.2 := by
  induction h with
  | refl => exact hp
  | trans _ _ ih₁ ih₂ => exact ih₂ (ih₁ hp)
  | within _ _ ih => exact ih hp
  | change h => exact h.declSound hp
  | introduce sym target n hscope howner hdecls _ _ hspells hlt =>
    exact hp.introduce hscope howner hdecls hspells hlt
  | nested _ _ _ ih => exact ih hp

end Binding

namespace Program

open Binding (DeclSound Declares ListedOnce Stable declared_markDeclared_cases)

variable {src : Source} {p q : Program} {n : NodeId} {s : SymbolId}

theorem declSound_opened (src : Source) : DeclSound src (opened src) := by
  have hopening := opening src
  refine ⟨hopening.wellScoped, fun h => ?_, fun {t e} h => ?_, fun s c h => ?_⟩
  · rw [hopening.declared] at h
    simp at h
  · rw [table_of_size_le (by rw [hopening.tables]; exact Nat.zero_le _)] at h
    exact nomatch h
  · exact nomatch (hopening.scopeless s).symm.trans h

theorem declSound_bound (hs : src.LaidOut) : DeclSound src (bound src) :=
  bound_of_run hs (declSound_opened src) fun h hp => h.declSound hp

/-! ### Questions -/

/-- Symbols only grow when types are worked out. -/
theorem Extends.grows (h : Extends src p q) : p.Grows q := by
  induction h with
  | refl => exact .refl _
  | trans _ _ ih₁ ih₂ => exact ih₁.trans ih₂
  | @types p q h =>
    have hsymbols : q.facts.symbols = p.facts.symbols := by rw [h]
    have htypes := @Extends.types src p q h
    exact .of_eq hsymbols htypes.scopes_eq htypes.modules_eq
  | symbol p sym _ => exact .addSymbol sym
  | members p s t _ =>
    exact .modifySymbol s fun _ => ⟨rfl, rfl, rfl, .refl _, fun _ => rfl, fun _ h => h⟩
  | target p s _ =>
    exact .modifySymbol s fun _ => ⟨rfl, rfl, rfl, .refl _, fun _ => rfl, fun _ h => h⟩
  | join p s n traits => exact .modifySymbol s fun _ => .joined traits n
  | table | member | declared | shape | link | effect => exact .of_eq rfl rfl rfl

/-- What is declared stays, and linking touches neither symbols nor scopes. -/
theorem grows_ofSource (src : Source) : (bound src).Grows (ofSource src) :=
  (Grows.of_eq (symbols_linked src) (scopes_linked src) (modules_linked src)).trans
    (extends_linked src).grows

/-- **A key that comes to declare something spells its name.** -/
theorem Extends.declared_new (h : Extends src p q) (hn : q.declared[n]? = some s) :
    p.declared[n]? = some s ∨ Declares src n s q := by
  induction h with
  | trans _ h₂ ih₁ ih₂ => exact (ih₂ hn).elim (fun hn => (ih₁ hn).imp_right (Stable.grows h₂.grows)) .inr
  | @types p q h =>
    have hdeclared : q.facts.declared = p.facts.declared := by rw [h]
    exact .inl (hdeclared ▸ hn)
  | declared p m s' hlt _ hmem _ hspells =>
    refine (declared_markDeclared_cases hn).imp_right ?_
    rintro ⟨rfl, rfl⟩
    exact ⟨hlt, hmem, hspells⟩
  | refl | symbol | table | members | target | member | join | shape | link | effect => exact .inl hn

theorem Extends.listedOnce (h : Extends src p q) (hp : ListedOnce p) : ListedOnce q := by
  refine hp.of_eq (fun c => by rw [scope, scope, h.scopes_eq]) fun s c hs => ?_
  have hlt : s.idx < p.symbols.size := by
    by_contra hge
    rw [h.scope_new (not_lt.mp hge)] at hs
    cases hs
  rwa [← (h.symbol_kept hlt).scope]

/-! ### The index -/

/-- **The index of declarations.** -/
structure DeclarationsIndexed (p : Program) : Prop where
  /-- A name node is a declaration of what it declares, and spells its name. -/
  declared : ∀ n s, p.declared[n]? = some s →
    n ∈ (p.symbol s).decls ∧ p.source.Spells n (p.symbol s).name
  /-- A scope lists only what belongs to it. -/
  listed : ∀ c s, s ∈ (p.scope c).symbols → (p.symbol s).scope = some c
  /-- What belongs to a scope is listed there once. -/
  once : ∀ c s, (p.symbol s).scope = some c → (p.scope c).symbols.count s = 1
  /-- What a scope knows as a value, or as a type, is a value, or a type, that it lists and
  that has this name. -/
  known : ∀ c name s space, (p.scope c).KnowsAs name s space →
    (p.symbol s).name = name ∧ s ∈ (p.scope c).symbols ∧ (p.symbol s).isAny space = true

/-- **The index of declarations is sound** in every program that has been built, whatever
has been asked of it since. -/
theorem declarationsIndexed_of_build {files : List ParsedFile} (h : build files = .ok p)
    (hq : Asked p q) : q.DeclarationsIndexed := by
  obtain ⟨src, rfl, hs⟩ := laidOut_of_build h
  have hasked := hq.extends
  rw [source_ofSource hs] at hasked
  have hext : Extends src (linked src) q := (extends_linked src).trans hasked
  have hsource : q.source = src := hasked.source_eq.trans (source_ofSource hs)
  have hw : WellScoped q := hasked.wellScoped (wellScoped_ofSource hs)
  have hspace : SpaceSound q := hasked.spaceSound (wellScoped_ofSource hs) (spaceSound_ofSource hs)
  have hbound := declSound_bound hs
  -- Linking touches neither symbols nor scopes.
  have hlinked : (bound src).Grows (linked src) :=
    .of_eq (symbols_linked src) (scopes_linked src) (modules_linked src)
  have honce : ListedOnce q := by
    refine hext.listedOnce (hbound.once.of_eq (fun c => ?_) fun s c h => ?_)
    · rw [scope, scope, scopes_linked]
    · rwa [symbol, symbols_linked] at h
  refine ⟨fun n s hn => ?_, fun c s hl => (hw.listed hl).2, fun c s => honce s c,
    fun c name s space hknown => ?_⟩
  · have hdeclares : Declares src n s q := by
      refine (hext.declared_new hn).elim (fun hn => Stable.grows hext.grows ?_) id
      rw [declared_linked] at hn
      exact Stable.grows hlinked (hbound.declared hn)
    rw [hsource]
    exact ⟨hdeclares.mem, hdeclares.spells⟩
  · obtain ⟨hlisted, hname⟩ := hw.known hknown.knows
    exact ⟨hname, hlisted, (hspace c name s space hknown).2⟩

/-- An object with a key in quotes. -/
def quotedKey : ParsedFile where
  path := "box.ts"
  contents := "const box = \x7b \"size\": 1 \x7d;".toUTF8
  tree :=
    .node "program" "" true 0 26 [
      .node "lexical_declaration" "" true 0 26 [
        .node "const" "kind" false 0 5 [],
        .node "variable_declarator" "" true 6 25 [
          .node "identifier" "name" true 6 9 [],
          .node "object" "value" true 12 25 [
            .node "pair" "" true 14 23 [
              .node "string" "key" true 14 20 [],
              .node "number" "value" true 22 23 []]]]]]

theorem declarationsIndexed_of_build_quotedKey : ∃ p q, build [quotedKey] = .ok p ∧ Asked p q ∧
    q.DeclarationsIndexed :=
  have hasked : ∀ p, Asked p ((Build.typeOfNode ⟨5⟩).after p) := fun p => .single (.typeOfNode p ⟨5⟩)
  ⟨_, _, build_singleton quotedKey, hasked _,
    declarationsIndexed_of_build (build_singleton quotedKey) (hasked _)⟩

end Program
end Moniker
