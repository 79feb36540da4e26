/-
# What stands where a symbol is declared

A declaration of a symbol is a name in a scope, the name of a member, or a name in an import
or export statement, and the symbol is what such a name declares (`Entitles`).  A name in a
scope declares something that belongs to a scope and has the trait of its place, a member
named by a literal is quoted, and what import and export statements name are aliases.

A name joins a symbol that it finds in a scope or in a table, so all that these hold must be
declared so, and nothing else that a name declares (`AllSited`).  A step of a visit keeps this
(`Change.allSited`), so it holds once everything is declared (`Program.allSited_bound`).
Later, while types are worked out, only members of object literals get declarations
(`Extends.decls_kept`).
-/

import Moniker.Proofs.Declarations

namespace Moniker
namespace Binding

open Program (Grows)

variable {src : Source} {file : FileId} {r n : NodeId} {c : Option ScopeId} {p q : Program}
  {s : SymbolId} {t : ScopeId} {sym x y : Symbol} {st st' : State}

/-- The node stands where a symbol like this is declared. -/
inductive Entitles (src : Source) (n : NodeId) (sym : Symbol) : Prop
  | lexical (scope : sym.scope ≠ none) (place : src.Lexical sym.traits n)
  | member (place : src.MemberName n) (quoted : isLiteralName src n = true → sym.has .quoted = true)
  | alias_ (place : src.AliasName n) (isAlias : sym.isAlias = true)

theorem Entitles.grows (h : Entitles src n x) (hg : x.Grows y) : Entitles src n y := by
  cases h with
  | lexical scope place => exact .lexical (hg.scope ▸ scope) (place.mono hg.traits)
  | member place quoted => exact .member place fun hn => hg.traits.has (quoted hn)
  | alias_ place isAlias => exact .alias_ place (hg.traits.meets isAlias)

/-- The symbol has declarations, and all of them stand where it is declared. -/
structure Sited (src : Source) (s : SymbolId) (p : Program) : Prop where
  lt : s.idx < p.symbols.size
  ne : (p.symbol s).decls ≠ []
  entitled : ∀ n ∈ (p.symbol s).decls, Entitles src n (p.symbol s)

/-- What names declare, tables hold and scopes own is declared where it should be. -/
structure AllSited (src : Source) (p : Program) : Prop where
  sound : DeclSound src p
  declared : ∀ {n : NodeId} {s}, p.declared[n]? = some s → Sited src s p
  tables : ∀ {t e}, e ∈ (p.table t).entries → Sited src e.2 p
  inScope : ∀ {s c}, (p.symbol s).scope = some c → Sited src s p

/-! ### One symbol -/

/-- A new symbol is declared where its only declaration stands. -/
theorem Sited.added (hdecls : sym.decls = [n]) (hn : Entitles src n sym)
    (hq : q.symbols = (p.addSymbol sym).symbols) : Sited src ⟨p.symbols.size⟩ q := by
  have hsym : q.symbol ⟨p.symbols.size⟩ = sym := by
    rw [Program.symbol, hq]
    exact (Program.symbol_addSymbol _).trans (if_pos rfl)
  refine ⟨?_, ?_, ?_⟩
  · rw [hq, Program.symbols_size_addSymbol]
    exact Nat.lt_succ_self _
  · rw [hsym, hdecls]
    exact List.cons_ne_nil _ _
  · rw [hsym, hdecls]
    intro m hm
    rwa [List.mem_singleton.mp hm]

/-- Old declarations are no obstacle, whatever else becomes of the symbol. -/
theorem Sited.of_grows (h : Sited src s p) (hg : Grows p q)
    (hnew : ∀ n ∈ (q.symbol s).decls,
      n ∈ (p.symbol s).decls ∨ Entitles src n (q.symbol s)) : Sited src s q := by
  have hsym := hg.symbol s h.lt
  refine ⟨h.lt.trans_le hg.symbols_le, ?_, fun n hn => ?_⟩
  · obtain ⟨d, hd⟩ := List.exists_mem_of_ne_nil _ h.ne
    exact List.ne_nil_of_mem (hsym.decls hd)
  · exact (hnew n hn).elim (fun hold => (h.entitled n hold).grows hsym) id

/-- A change of one symbol that adds at most one name to its declarations. -/
theorem Sited.modifySymbol {f : Symbol → Symbol} {m : SymbolId} (h : Sited src s p)
    (hg : Grows p q) (hq : q.symbols = (p.modifySymbol m f).symbols)
    (hf : s = m → ∀ n ∈ (f (p.symbol s)).decls,
      n ∈ (p.symbol s).decls ∨ Entitles src n (f (p.symbol s))) : Sited src s q := by
  refine h.of_grows hg fun n hn => ?_
  have hsym : q.symbol s = (p.modifySymbol m f).symbol s := by
    rw [Program.symbol, hq]
    rfl
  rw [hsym, Program.symbol_modifySymbol] at hn ⊢
  split at hn
  · next heq =>
    rw [if_pos heq]
    exact hf (congrArg SymbolId.mk heq.1.symm) n hn
  · exact .inl hn

/-- A name that joins a symbol stands where it is declared. -/
theorem Sited.joined {traits : Traits} {m : SymbolId} (h : Sited src s p) (hg : Grows p q)
    (hq : q.symbols = (p.modifySymbol m fun x => x.joined traits n).symbols)
    (hn : s = m → Entitles src n ((p.symbol s).joined traits n)) : Sited src s q := by
  refine h.modifySymbol hg hq fun hsm k hk => ?_
  refine (List.mem_append.mp hk).imp_right fun hk => ?_
  rw [List.mem_singleton.mp hk]
  exact hn hsm

/-- **A step of a visit declares symbols where they are declared.** -/
theorem Change.sited (h : Change src file r p q) (hw : WellScoped p) (hs : Sited src s p) :
    Sited src s q := by
  have hg := h.grows
  have hold {sym : Symbol} (hq : q.symbols = (p.addSymbol sym).symbols) : Sited src s q := by
    refine hs.of_grows hg fun n hn => .inl ?_
    rwa [Program.symbol, hq, ← Program.symbol, Program.symbol_addSymbol, if_neg hs.lt.ne] at hn
  cases h with
  | scope | markScope | markShape | markClass | markSpecifier | table | member | module | ambient =>
    exact hs.of_grows hg fun _ hn => .inl hn
  | symbol sym | alias_ sym | newMember _ _ sym | import_ sym => exact hold rfl
  | touch m f hf => exact hs.modifySymbol hg rfl fun _ n hn => .inl ((hf _).decls ▸ hn)
  | fill m n =>
    refine hs.modifySymbol hg rfl fun _ k hk => .inl ?_
    rwa [if_neg (by simpa using hs.ne)] at hk
  | property m cls isPrivate => exact hs.modifySymbol hg rfl fun _ n hn => .inl hn
  | joinMember t text m traits n _ _ _ hplace hquoted =>
    refine hs.joined hg rfl fun _ => .member hplace fun hliteral => ?_
    exact Traits.le_union_right.has (hquoted hliteral)
  | join target text m traits n hown _ _ _ hplace =>
    refine hs.joined hg rfl fun hsm => .lexical ?_ (hplace.mono Traits.le_union_right)
    subst hsm
    exact ((hw.listed (hw.own? hown).1).2.trans_ne (Option.some_ne_none _))

/-! ### All symbols -/

namespace AllSited

/-- What is declared or listed anew must be declared where it should be. -/
theorem of_step (h : AllSited src p) (hq : DeclSound src q)
    (hkeep : ∀ {s}, Sited src s p → Sited src s q)
    (hd : ∀ {n : NodeId} {s}, q.declared[n]? = some s → p.declared[n]? = some s ∨ Sited src s q)
    (ht : ∀ {t e}, e ∈ (q.table t).entries → e ∈ (p.table t).entries ∨ Sited src e.2 q)
    (hs : ∀ s c, (q.symbol s).scope = some c → (p.symbol s).scope = some c) : AllSited src q where
  sound := hq
  declared hn := (hd hn).elim (fun hn => hkeep (h.declared hn)) id
  tables he := (ht he).elim (fun he => hkeep (h.tables he)) id
  inScope hc := hkeep (h.inScope (hs _ _ hc))

/-- A name declares a symbol that is declared where it should be. -/
theorem declare {k : NodeId} (hs : Sited src s q)
    (hd : q.declared = (p.markDeclared n s).declared) {s' : SymbolId}
    (h : q.declared[k]? = some s') : p.declared[k]? = some s' ∨ Sited src s' q := by
  rw [hd] at h
  refine (declared_markDeclared_cases h).imp_right ?_
  rintro ⟨_, rfl⟩
  exact hs

/-- A new symbol in a scope. -/
theorem introduce (h : AllSited src p) (hq : DeclSound src (Binding.introduce p sym t n))
    (hdecls : sym.decls = [n]) (hn : Entitles src n sym) :
    AllSited src (Binding.introduce p sym t n) := by
  have hnew : Sited src ⟨p.symbols.size⟩ (Binding.introduce p sym t n) := .added hdecls hn rfl
  have hsym (s : SymbolId) : (Binding.introduce p sym t n).symbol s =
      if s.idx = p.symbols.size then sym else p.symbol s := Program.symbol_addSymbol s
  have hkeep {s : SymbolId} (hs : Sited src s p) : Sited src s (Binding.introduce p sym t n) := by
    refine hs.of_grows (grows_introduce sym t n) fun k hk => .inl ?_
    rwa [hsym, if_neg hs.lt.ne] at hk
  refine ⟨hq, fun hd => (declare hnew rfl hd).elim (fun hd => hkeep (h.declared hd)) id,
    fun he => hkeep (h.tables he), fun {s c} hc => ?_⟩
  by_cases hid : s.idx = p.symbols.size
  · rwa [show s = ⟨p.symbols.size⟩ from congrArg SymbolId.mk hid]
  · rw [hsym, if_neg hid] at hc
    exact hkeep (h.inScope hc)

end AllSited

/-- **A step of a visit keeps declarations where they should be.** -/
theorem Change.allSited (h : Change src file r p q) (hp : AllSited src p) : AllSited src q := by
  have hq := h.declSound hp.sound
  have hkeep : ∀ {s}, Sited src s p → Sited src s q := fun hs => h.sited hp.sound.wellScoped hs
  cases h with
  | scope | markScope | markShape | markClass | markSpecifier | module | ambient =>
    exact hp.of_step hq hkeep .inl .inl fun _ _ hc => hc
  | symbol sym hnone => exact hp.of_step hq hkeep .inl .inl (scope_of_addSymbol hnone)
  | touch m f hf => exact hp.of_step hq hkeep .inl .inl (scope_of_modifySymbol fun x => (hf x).scope)
  | fill m n =>
    refine hp.of_step hq hkeep .inl .inl (scope_of_modifySymbol fun x => ?_)
    split <;> rfl
  | property => exact hp.of_step hq hkeep .inl .inl (scope_of_modifySymbol fun _ => rfl)
  | table =>
    refine hp.of_step hq hkeep .inl (fun {t e} he => ?_) fun _ _ hc => hc
    rw [Program.table_addTable] at he
    split at he
    · exact absurd he List.not_mem_nil
    · exact .inl he
  | member t text m hinner _ hscope =>
    refine hp.of_step hq hkeep .inl (fun {u e} he => ?_) fun _ _ hc => hc
    refine (entries_addToTable_cases he).imp_right fun heq => ?_
    obtain ⟨c, hc⟩ := Option.ne_none_iff_exists'.mp hscope
    rw [heq]
    exact hkeep (hp.inScope hc)
  | alias_ sym n hnone hdecls _ _ halias hplace =>
    have hnew : Sited src ⟨p.symbols.size⟩ ((p.addSymbol sym).markDeclared n ⟨p.symbols.size⟩) :=
      .added hdecls (.alias_ hplace halias) rfl
    exact hp.of_step hq hkeep (AllSited.declare hnew rfl) .inl (scope_of_addSymbol hnone)
  | newMember t text sym n hnone hdecls _ _ _ hplace hquoted =>
    have hnew : Sited src ⟨p.symbols.size⟩
        (((p.addSymbol sym).addToTable t text ⟨p.symbols.size⟩).markDeclared n ⟨p.symbols.size⟩) :=
      .added hdecls (.member hplace hquoted) rfl
    refine hp.of_step hq hkeep (AllSited.declare hnew rfl) (fun {u e} he => ?_)
      (scope_of_addSymbol hnone)
    refine (entries_addToTable_cases he).imp_right fun heq => ?_
    rw [heq]
    exact hnew
  | joinMember t text m traits n hmem =>
    exact hp.of_step hq hkeep (AllSited.declare (hkeep (hp.tables hmem)) rfl) .inl
      (scope_of_modifySymbol fun _ => rfl)
  | join target text m traits n hown =>
    have hscope := (hp.sound.wellScoped.listed (hp.sound.wellScoped.own? hown).1).2
    exact hp.of_step hq hkeep (AllSited.declare (hkeep (hp.inScope hscope)) rfl) .inl
      (scope_of_modifySymbol fun _ => rfl)
  | import_ sym target n _ _ hdecls halias _ _ _ _ hplace =>
    exact hp.introduce hq hdecls (.alias_ hplace halias)

/-- **A visit keeps declarations where they should be.** -/
theorem Run.allSited (h : Run src file c r st st') (hp : AllSited src st.2) :
    AllSited src st'.2 := by
  induction h with
  | refl => exact hp
  | trans _ _ ih₁ ih₂ => exact ih₂ (ih₁ hp)
  | within _ _ ih => exact ih hp
  | change h => exact h.allSited hp
  | introduce sym target n hscope howner hdecls _ _ hspells hlt hplace =>
    refine hp.introduce (hp.sound.introduce hscope howner hdecls hspells hlt) hdecls ?_
    exact .lexical (hscope.trans_ne (Option.some_ne_none _)) hplace
  | nested _ _ _ ih => exact ih hp

end Binding

namespace Program

open Binding (AllSited Entitles)

variable {src : Source} {p q : Program} {n : NodeId} {s : SymbolId}

theorem allSited_bound (hs : src.LaidOut) : AllSited src (bound src) := by
  have hopening := opening src
  refine bound_of_run hs ⟨declSound_opened src, fun h => ?_, fun {t e} h => ?_, fun {s c} h => ?_⟩
    fun h hp => h.allSited hp
  · rw [hopening.declared] at h
    simp at h
  · rw [table_of_size_le (by rw [hopening.tables]; exact Nat.zero_le _)] at h
    exact nomatch h
  · exact nomatch (hopening.scopeless s).symm.trans h

/-- **What a name declares is declared where the name stands.** -/
theorem entitles_of_declared (hs : src.LaidOut) (h : (bound src).declared[n]? = some s) :
    Entitles src n ((bound src).symbol s) :=
  ((allSited_bound hs).declared h).entitled n ((declSound_bound hs).declared h).mem

/-- **Only members of object literals get declarations while types are worked out.** -/
theorem Extends.decls_kept (h : Extends src p q) (hs : s.idx < p.symbols.size) :
    (q.symbol s).decls = (p.symbol s).decls ∨ q.IsLiteralMember s := by
  induction h with
  | refl => exact .inl rfl
  | trans h₁ h₂ ih₁ ih₂ =>
    have hmid := hs.trans_le h₁.scopes_kept.1
    rcases ih₁ hs with heq₁ | hliteral
    · exact (ih₂ hmid).imp_left fun heq₂ => heq₂.trans heq₁
    · exact .inr (hliteral.extends h₂ hmid)
  | types h => exact .inl (congrArg Symbol.decls (symbol_types h s))
  | symbol p sym => exact .inl (by rw [symbol_addSymbol, if_neg hs.ne])
  | members | target =>
    refine .inl ?_
    rw [symbol_modifySymbol]
    split <;> rfl
  | join p m n traits hscope hkey hhard hliteral =>
    by_cases hsm : s = m
    · subst hsm
      exact .inr (hliteral.extends (.join p s n traits hscope hkey hhard hliteral) hs)
    · refine .inl ?_
      rw [symbol_modifySymbol, if_neg fun h => hsm (congrArg SymbolId.mk h.1.symm)]
  | table | member | declared | shape | link | effect => exact .inl rfl

/-- **Only keys of object literals come to declare something later.** -/
theorem Extends.declared_literal (h : Extends src p q) (hn : q.declared[n]? = some s) :
    p.declared[n]? = some s ∨ (s.idx < q.symbols.size ∧ q.IsLiteralMember s) := by
  induction h with
  | trans _ h₂ ih₁ ih₂ =>
    rcases ih₂ hn with hn | hliteral
    · refine (ih₁ hn).imp_right fun ⟨hlt, hliteral⟩ => ?_
      exact ⟨hlt.trans_le h₂.scopes_kept.1, hliteral.extends h₂ hlt⟩
    · exact .inr hliteral
  | @types p q h =>
    have hdeclared : q.facts.declared = p.facts.declared := by rw [h]
    exact .inl (hdeclared ▸ hn)
  | declared p m s' hlt _ _ _ _ hliteral =>
    refine (Binding.declared_markDeclared_cases hn).imp_right ?_
    rintro ⟨-, rfl⟩
    exact ⟨hlt, hliteral⟩
  | refl | symbol | table | members | target | member | join | shape | link | effect => exact .inl hn

end Program
end Moniker
