/-
# Interfaces of one name

A declaration joins the symbol that its scope has under the name, if the two may be one, and
a scope with two symbols under a name answers with the value.  So interfaces of one name are
one symbol, unless something that is no part of interfaces has the name as well
(`Traits.rivals`): a variable between two interfaces hides the first from the second.

Classes and namespaces are no rivals, because interfaces join them.  What an interface does
not join is a rival (`Traits.meets_rivals_of_first`), and what does not join an interface is
one too (`Traits.meets_rivals_of_second`).  Hence an interface is what its scope has under the
name, or a rival is to blame (`Program.Stands`), and two interfaces of a name have a rival
that came before the second (`Merging`).  Every step of a visit keeps this (`Run.merging`).
-/

import Moniker.Proofs.DeclarationSites

namespace Moniker
namespace Traits

variable {a b c : Traits} {t : Trait}

/-- What can have a name and is no interface, class or namespace. -/
def rivals : Traits :=
  (Traits.of [.variableDecl, .functionDecl, .aliasDecl, .enumDecl, .typeParameter]).union aliasing

theorem Le.meets_right (h : Le b c) (hm : a.meets b = true) : a.meets c = true := by
  obtain ⟨i, ha, hb⟩ := meets_iff.mp hm
  exact meets_iff.mpr ⟨i, ha, h i hb⟩

theorem le_of_union_eq (h : a.union b = b) : Le a b := h ▸ le_union_left

theorem meets_insert (h : a.meets (b.insert t) = true) : a.meets b = true ∨ a.has t = true := by
  obtain ⟨i, ha, hb⟩ := meets_iff.mp h
  simp only [insert, Nat.testBit_or, Nat.one_shiftLeft, Nat.testBit_two_pow, Bool.or_eq_true,
    decide_eq_true_iff] at hb
  rcases hb with hb | rfl
  · exact .inl (meets_iff.mpr ⟨i, ha, hb⟩)
  · exact .inr ha

/-- A name in a scope is that of a rival, or of an interface, a class or a namespace. -/
theorem rivals_or_joins (h : a.meets Source.lexicalTraits = true) : a.meets rivals = true ∨
    a.has .interfaceDecl = true ∨ a.has .classDecl = true ∨ a.has .namespaceDecl = true := by
  have hle : Source.lexicalTraits.Le
      (((rivals.insert .namespaceDecl).insert .classDecl).insert .interfaceDecl) :=
    le_of_union_eq (by decide)
  rcases meets_insert (hle.meets_right h) with h | h
  · rcases meets_insert h with h | h
    · exact (meets_insert h).imp_right fun h => .inr (.inr h)
    · exact .inr (.inr (.inl h))
  · exact .inr (.inl h)

/-- What an interface does not join is a rival. -/
theorem meets_rivals_of_first (h : Binding.mergeable a b = false)
    (hb : b.has .interfaceDecl = true) (ha : a.meets Source.lexicalTraits = true) :
    a.meets rivals = true := by
  refine (rivals_or_joins ha).resolve_right fun hjoins => ?_
  simp only [Binding.mergeable, hb, Bool.true_or, Bool.and_true, Bool.or_eq_false_iff] at h
  rcases hjoins with h' | h' | h' <;> simp [h'] at h

/-- What does not join an interface is a rival. -/
theorem meets_rivals_of_second (h : Binding.mergeable a b = false)
    (ha : a.has .interfaceDecl = true) (hb : b.meets Source.lexicalTraits = true) :
    b.meets rivals = true := by
  refine (rivals_or_joins hb).resolve_right fun hjoins => ?_
  simp only [Binding.mergeable, ha, Bool.true_and, Bool.or_eq_false_iff] at h
  rcases hjoins with h' | h' | h' <;> simp [h'] at h

end Traits

/-! ### Scopes -/

namespace Scope

variable {sc sc' : Scope} {s id : SymbolId} {sym : Symbol} {x : String}

theorem own?_of_values (h : sc.values[x]? = some s) : sc.own? x = some s := by
  rw [own?, h]
  rfl

theorem knows_of_own? (h : sc.own? x = some s) : sc.Knows x s :=
  ((Option.orElse_eq_some _ _ _).mp h).imp_right And.right

/-- The scope has come to know more at most. -/
structure Learns (sc sc' : Scope) : Prop where
  values : ∀ {x : String} {s}, sc.values[x]? = some s → sc'.values[x]? = some s
  types : ∀ {x : String} {s}, sc.types[x]? = some s → sc'.types[x]? = some s

theorem Learns.refl (sc : Scope) : sc.Learns sc := ⟨fun h => h, fun h => h⟩

theorem Learns.knows (h : sc.Learns sc') (hs : sc.Knows x s) : sc'.Knows x s :=
  hs.imp h.values h.types

/-- What a scope has under a name it has still, or it has learned a value of that name. -/
theorem Learns.own? (h : sc.Learns sc') (hs : sc.own? x = some s) : sc'.own? x = some s ∨
    ∃ r, sc'.values[x]? = some r ∧ sc.values[x]? = none := by
  rcases (Option.orElse_eq_some _ _ _).mp hs with hv | ⟨hnone, ht⟩
  · exact .inl (own?_of_values (h.values hv))
  · cases hv : sc'.values[x]? with
    | some r => exact .inr ⟨r, rfl, hnone⟩
    | none =>
      refine .inl ?_
      rw [Scope.own?, hv]
      exact h.types ht

theorem learns_register : sc.Learns (sc.register id sym) := by
  have hinsert {m : Table String SymbolId} {cond : Bool} {x : String} {s : SymbolId}
      (h : m[x]? = some s) : (if cond then m.insertIfNew sym.name id else m)[x]? = some s := by
    split
    · rw [Table.getElem?_insertIfNew, if_neg, h]
      rintro ⟨heq, hnot⟩
      rw [eq_of_beq heq, Std.TreeMap.mem_iff_isSome_getElem?, h] at hnot
      exact hnot rfl
    · exact h
  exact ⟨hinsert, hinsert⟩

/-- Who registers keeps the name as it is, or takes it as a value. -/
theorem own?_register (h : sc.own? x = some s) : (sc.register id sym).own? x = some s ∨
    ((sc.register id sym).values[x]? = some id ∧ sym.name = x) := by
  refine (learns_register.own? h).imp_right fun ⟨r, hr, hnone⟩ => ?_
  rcases WellScoped.getElem?_insertIfNew hr with hold | ⟨rfl, hname⟩
  · exact absurd (hold.symm.trans hnone) (Option.some_ne_none r)
  · exact ⟨hr, hname⟩

/-- A type that registers under a free name gets it. -/
theorem own?_register_self (h : sc.own? sym.name = none) (htype : sym.isAny Traits.type = true) :
    (sc.register id sym).own? sym.name = some id := by
  obtain ⟨hv, ht⟩ := (Option.orElse_eq_none _ _).mp h
  have hfree : sym.name ∉ sc.types := by
    rw [Std.TreeMap.mem_iff_isSome_getElem?, ht]
    exact Bool.false_ne_true
  have htypes : (sc.register id sym).types[sym.name]? = some id := by
    simp only [register, htype, if_true, Table.getElem?_insertIfNew, beq_self_eq_true, hfree,
      not_false_eq_true, and_self]
  cases hvalues : (sc.register id sym).values[sym.name]? with
  | none =>
    rw [own?, hvalues]
    exact htypes
  | some r =>
    rcases WellScoped.getElem?_insertIfNew hvalues with hold | ⟨rfl, -⟩
    · exact absurd (hold.symm.trans hv) (Option.some_ne_none r)
    · exact own?_of_values hvalues

/-! Listing a symbol changes nothing about names. -/

theorem learns_declare : sc.Learns (sc.declare id sym) :=
  ⟨learns_register.values, learns_register.types⟩

theorem own?_declare (h : sc.own? x = some s) : (sc.declare id sym).own? x = some s ∨
    ((sc.declare id sym).values[x]? = some id ∧ sym.name = x) :=
  @own?_register { sc with symbols := sc.symbols ++ [id] } _ _ _ _ h

theorem own?_declare_self (h : sc.own? sym.name = none) (htype : sym.isAny Traits.type = true) :
    (sc.declare id sym).own? sym.name = some id :=
  @own?_register_self { sc with symbols := sc.symbols ++ [id] } _ _ h htype

end Scope

/-! ### Programs -/

namespace Program

variable {p q : Program} {c t : ScopeId} {x : String} {s s' r m : SymbolId} {sym : Symbol}

/-- The scope lists the symbol, an interface of that name. -/
structure ListsInterface (p : Program) (c : ScopeId) (x : String) (s : SymbolId) : Prop where
  mem : s ∈ (p.scope c).symbols
  name : (p.symbol s).name = x
  isInterface : (p.symbol s).has .interfaceDecl = true

/-- The scope knows the symbol under the name, and it is a rival of interfaces. -/
structure Contests (p : Program) (c : ScopeId) (x : String) (r : SymbolId) : Prop where
  knows : (p.scope c).Knows x r
  rival : (p.symbol r).isAny Traits.rivals = true

/-- The interface is what the scope has under the name, or is not because of a rival: a value,
which the scope looks at first, or something that came before. -/
inductive Stands (p : Program) (c : ScopeId) (x : String) (s : SymbolId) : Prop
  | own (h : (p.scope c).own? x = some s)
  | behind (r : SymbolId) (h : (p.scope c).values[x]? = some r)
    (rival : (p.symbol r).isAny Traits.rivals = true)
  | after (r : SymbolId) (h : p.Contests c x r) (lt : r.idx < s.idx)

theorem Contests.grows (h : p.Contests c x r) (hw : WellScoped p) (hg : p.Grows q)
    (hc : (p.scope c).Learns (q.scope c)) : q.Contests c x r :=
  ⟨hc.knows h.knows, (hg.symbol r (hw.listed (hw.known h.knows).1).1).traits.meets h.rival⟩

/-- Only what the scope has under the name can lose its place. -/
theorem Stands.grows (h : p.Stands c x s) (hw : WellScoped p) (hg : p.Grows q)
    (hc : (p.scope c).Learns (q.scope c))
    (hown : (p.scope c).own? x = some s → q.Stands c x s) : q.Stands c x s := by
  cases h with
  | own h => exact hown h
  | behind r h rival =>
    exact .behind r (hc.values h) (Contests.grows ⟨.inl h, rival⟩ hw hg hc).rival
  | after r h lt => exact .after r (h.grows hw hg hc) lt

/-- What a scope knows is something that a name in a scope can be. -/
theorem isAny_lexicalTraits (h : SpaceSound p) (hknows : (p.scope c).Knows x s) :
    (p.symbol s).isAny Source.lexicalTraits = true := by
  rcases hknows with hv | ht
  · exact Traits.Le.meets_right Traits.le_union_left (h c x s _ (.value hv)).2
  · exact Traits.Le.meets_right Traits.le_union_right (h c x s _ (.type ht)).2

end Program

/-- **Two interfaces of a name are one, or a rival came before the second.** -/
structure Merging (p : Program) : Prop where
  stands : ∀ {c x s}, p.ListsInterface c x s → p.Stands c x s
  merged : ∀ {c x s s'}, p.ListsInterface c x s → p.ListsInterface c x s' →
    s = s' ∨ ∃ r, p.Contests c x r ∧ r.idx ≤ max s.idx s'.idx

namespace Merging

open Program (Contests Stands ListsInterface)

variable {p q : Program} {c t : ScopeId} {x : String} {s s' r m : SymbolId} {sym : Symbol}

/-- What comes to be an interface finds nothing under its name but itself and earlier rivals. -/
structure Arrives (p q : Program) (c : ScopeId) (x : String) (s : SymbolId) : Prop where
  stands : q.Stands c x s
  alone : ∀ r, (p.scope c).own? x = some r → r = s ∨ (q.Contests c x r ∧ r.idx < s.idx)

theorem Arrives.merged (h : Merging p) (hcontests : ∀ {r}, p.Contests c x r → q.Contests c x r)
    (hs : p.ListsInterface c x s) (hm : Arrives p q c x m) :
    s = m ∨ ∃ r, q.Contests c x r ∧ r.idx ≤ max s.idx m.idx := by
  cases h.stands hs with
  | own h =>
    refine (hm.alone s h).imp_right fun ⟨hc, _⟩ => ⟨s, hc, le_max_left _ _⟩
  | behind r h rival =>
    have hc : q.Contests c x r := hcontests ⟨.inl h, rival⟩
    rcases hm.alone r (Scope.own?_of_values h) with rfl | ⟨-, hlt⟩
    · exact .inr ⟨r, hc, le_max_right _ _⟩
    · exact .inr ⟨r, hc, hlt.le.trans (le_max_right _ _)⟩
  | after r h lt => exact .inr ⟨r, hcontests h, lt.le.trans (le_max_left _ _)⟩

/-- At most one symbol comes to be an interface in a step. -/
theorem of_step (h : Merging p) (m : SymbolId)
    (hcontests : ∀ {c x r}, p.Contests c x r → q.Contests c x r)
    (hstands : ∀ {c x s}, p.ListsInterface c x s → q.Stands c x s)
    (hnew : ∀ {c x s}, q.ListsInterface c x s →
      p.ListsInterface c x s ∨ (s = m ∧ Arrives p q c x m)) : Merging q where
  stands hs := by
    rcases hnew hs with hs | ⟨rfl, hm⟩
    · exact hstands hs
    · exact hm.stands
  merged {c x s s'} hs hs' := by
    rcases hnew hs with hold | ⟨rfl, hm⟩ <;> rcases hnew hs' with hold' | ⟨rfl, hm'⟩
    · exact (h.merged hold hold').imp_right fun ⟨r, hr, hle⟩ => ⟨r, hcontests hr, hle⟩
    · exact hm'.merged h hcontests hold
    · rw [max_comm]
      exact (hm.merged h hcontests hold').imp_left Eq.symm
    · exact .inl rfl

/-- A step that changes neither what scopes list and know nor what interfaces there are. -/
theorem of_same (h : Merging p) (hw : WellScoped p) (hg : p.Grows q)
    (hsame : ∀ c, (q.scope c).symbols = (p.scope c).symbols ∧
      (q.scope c).values = (p.scope c).values ∧ (q.scope c).types = (p.scope c).types)
    (hold : ∀ s, s.idx < p.symbols.size → (q.symbol s).has .interfaceDecl = true →
      (p.symbol s).has .interfaceDecl = true) : Merging q := by
  have hlearns (c : ScopeId) : (p.scope c).Learns (q.scope c) :=
    ⟨fun h => (hsame c).2.1 ▸ h, fun h => (hsame c).2.2 ▸ h⟩
  refine h.of_step default (fun hr => hr.grows hw hg (hlearns _)) (fun {c x s} hs => ?_)
    fun {c x s} hs => .inl ?_
  · refine (h.stands hs).grows hw hg (hlearns c) fun hown => .own ?_
    rwa [Scope.own?, (hsame c).2.1, (hsame c).2.2]
  · have hmem : s ∈ (p.scope c).symbols := (hsame c).1 ▸ hs.mem
    have hlt := (hw.listed hmem).1
    exact ⟨hmem, (hg.symbol s hlt).name ▸ hs.name, hold s hlt hs.isInterface⟩

/-- A change of one symbol that makes no interface of it. -/
theorem of_modified {f : Symbol → Symbol} (h : Merging p) (hw : WellScoped p) (hg : p.Grows q)
    (hscopes : q.scopes = p.scopes) (hsymbols : q.symbols = (p.modifySymbol m f).symbols)
    (hf : ∀ x : Symbol, (f x).has .interfaceDecl = true → x.has .interfaceDecl = true) :
    Merging q := by
  refine h.of_same hw hg (fun c => ?_) fun s _ hs => ?_
  · rw [Program.scope, hscopes]
    exact ⟨rfl, rfl, rfl⟩
  · have hsym : q.symbol s = (p.modifySymbol m f).symbol s := by
      rw [Program.symbol, hsymbols]
      rfl
    rw [hsym, Program.symbol_modifySymbol] at hs
    split at hs
    · exact hf _ hs
    · exact hs

section Join

variable {text : String} {traits : Traits} {n : NodeId}

theorem scope_joinInto_cases (hm : m.idx < p.symbols.size) (t : ScopeId) (traits : Traits)
    (n : NodeId) (c : ScopeId) :
    (Binding.joinInto p t m traits n).scope c = p.scope c ∨
      (c = t ∧ (Binding.joinInto p t m traits n).scope c =
        (p.scope t).register m ((p.symbol m).joined traits n)) := by
  have hjoined : (p.modifySymbol m fun x => x.joined traits n).symbol m =
      (p.symbol m).joined traits n := (Program.symbol_modifySymbol m).trans (if_pos ⟨rfl, hm⟩)
  rw [← hjoined]
  exact Program.scope_modifyScope_cases t _ c

theorem learns_joinInto (hm : m.idx < p.symbols.size) (c : ScopeId) :
    (p.scope c).Learns ((Binding.joinInto p t m traits n).scope c) := by
  rcases scope_joinInto_cases hm t traits n c with heq | ⟨rfl, heq⟩ <;> rw [heq]
  · exact .refl _
  · exact Scope.learns_register

/-- What joins a symbol of a name leaves all names to what has them. -/
theorem own?_joinInto (hw : WellScoped p) (hown : (p.scope t).own? text = some m)
    (hs : (p.scope c).own? x = some s) :
    ((Binding.joinInto p t m traits n).scope c).own? x = some s := by
  obtain ⟨hlisted, hname⟩ := hw.own? hown
  rcases scope_joinInto_cases (hw.listed hlisted).1 t traits n c with heq | ⟨rfl, heq⟩ <;> rw [heq]
  · exact hs
  · rcases Scope.own?_register hs with hs | ⟨hv, hx⟩
    · exact hs
    · have hx : text = x := hname.symm.trans hx
      rw [← hx, hown] at hs
      rw [← Option.some.inj hs]
      exact Scope.own?_of_values hv

/-- A name joins what its scope has under it, which may become an interface by that. -/
theorem join (h : Merging p) (hw : WellScoped p) (hown : (p.scope t).own? text = some m) :
    Merging (Binding.joinInto p t m traits n) := by
  have hg := Binding.grows_joinInto (p := p) t m traits n
  obtain ⟨hlisted, hname⟩ := hw.own? hown
  obtain ⟨hlt, hscope⟩ := hw.listed hlisted
  refine h.of_step m (fun hr => hr.grows hw hg (learns_joinInto hlt _))
    (fun {c x s} hs => (h.stands hs).grows hw hg (learns_joinInto hlt c) fun hs =>
      .own (own?_joinInto hw hown hs))
    fun {c x s} hs => ?_
  have hmem : s ∈ (p.scope c).symbols := by
    have hmem := hs.mem
    rcases scope_joinInto_cases hlt t traits n c with heq | ⟨rfl, heq⟩ <;> rwa [heq] at hmem
  obtain ⟨hslt, hsscope⟩ := hw.listed hmem
  have hsname : (p.symbol s).name = x := (hg.symbol s hslt).name.symm.trans hs.name
  by_cases hsm : s = m
  · subst hsm
    obtain rfl : c = t := Option.some.inj (hsscope.symm.trans hscope)
    obtain rfl : text = x := hname.symm.trans hsname
    refine .inr ⟨rfl, .own (own?_joinInto hw hown hown), fun r hr => .inl ?_⟩
    exact Option.some.inj (hr.symm.trans hown)
  · have hsymbol : (Binding.joinInto p t m traits n).symbol s = p.symbol s :=
      (Program.symbol_modifySymbol s).trans (if_neg fun heq => hsm (congrArg SymbolId.mk heq.1.symm))
    exact .inl ⟨hmem, hsname, hsymbol ▸ hs.isInterface⟩

end Join

/-- A new symbol and the rest of its name have no part in each other if they are rivals. -/
structure Apart (p : Program) (e : SymbolId) (sym : Symbol) : Prop where
  old : sym.has .interfaceDecl = true → (p.symbol e).isAny Traits.rivals = true
  new : (p.symbol e).has .interfaceDecl = true → sym.isAny Traits.rivals = true

section Introduce

variable {n : NodeId}

theorem symbol_introduce_of_lt (h : s.idx < p.symbols.size) :
    (Binding.introduce p sym t n).symbol s = p.symbol s :=
  (Program.symbol_addSymbol s).trans (if_neg h.ne)

theorem scope_introduce_cases (p : Program) (sym : Symbol) (t : ScopeId) (n : NodeId)
    (c : ScopeId) :
    (Binding.introduce p sym t n).scope c = p.scope c ∨
      (c = t ∧ (Binding.introduce p sym t n).scope c =
        (p.scope t).declare ⟨p.symbols.size⟩ sym) :=
  Program.scope_modifyScope_cases (p := p.addSymbol sym) t _ c

theorem learns_introduce (c : ScopeId) :
    (p.scope c).Learns ((Binding.introduce p sym t n).scope c) := by
  rcases scope_introduce_cases p sym t n c with heq | ⟨rfl, heq⟩ <;> rw [heq]
  · exact .refl _
  · exact Scope.learns_declare

/-- A new interface gets its name, or comes after a rival. -/
theorem Arrives.introduce (hw : WellScoped p)
    (hapart : ∀ e, (p.scope t).own? sym.name = some e → Apart p e sym)
    (hlt : t.idx < p.scopes.size) (hi : sym.has .interfaceDecl = true) :
    Arrives p (Binding.introduce p sym t n) t sym.name ⟨p.symbols.size⟩ := by
  have hearlier {e : SymbolId} (he : (p.scope t).own? sym.name = some e) :
      (Binding.introduce p sym t n).Contests t sym.name e ∧ e.idx < p.symbols.size := by
    refine ⟨?_, (hw.listed (hw.own? he).1).1⟩
    exact Contests.grows ⟨Scope.knows_of_own? he, (hapart e he).old hi⟩ hw
      (Binding.grows_introduce sym t n) (learns_introduce t)
  refine ⟨?_, fun r hr => .inr (hearlier hr)⟩
  cases hown : (p.scope t).own? sym.name with
  | some e => exact .after e (hearlier hown).1 (hearlier hown).2
  | none =>
    have htype : sym.isAny Traits.type = true := Traits.meets_of_has hi (by decide)
    have hscope : (Binding.introduce p sym t n).scope t =
        (p.scope t).declare ⟨p.symbols.size⟩ sym :=
      (Program.scope_modifyScope t).trans (if_pos ⟨rfl, hlt⟩)
    refine .own ?_
    rw [hscope]
    exact Scope.own?_declare_self hown htype

/-- A new symbol has no part in what its scope has under its name. -/
theorem introduce (h : Merging p) (hw : WellScoped p)
    (hapart : ∀ e, (p.scope t).own? sym.name = some e → Apart p e sym)
    (hscope : sym.scope = some t) (hlt : t.idx < p.scopes.size) :
    Merging (Binding.introduce p sym t n) := by
  have hg := Binding.grows_introduce (p := p) sym t n
  have hnew : (Binding.introduce p sym t n).symbol ⟨p.symbols.size⟩ = sym := Binding.symbol_introduce
  refine h.of_step ⟨p.symbols.size⟩ (fun hr => hr.grows hw hg (learns_introduce _))
    (fun {c x s} hs => ?_) fun {c x s} hs => ?_
  · -- If an interface loses its place, it loses it to the new symbol.
    refine (h.stands hs).grows hw hg (learns_introduce c) fun hown => ?_
    rcases scope_introduce_cases p sym t n c with heq | ⟨rfl, heq⟩
    · exact .own (heq ▸ hown)
    · rcases Scope.own?_declare hown with hown' | ⟨hv, hx⟩
      · exact .own (heq ▸ hown')
      · refine .behind ⟨p.symbols.size⟩ (heq ▸ hv) ?_
        rw [hnew]
        exact (hapart s (hx ▸ hown)).new hs.isInterface
  · have hmem : s ∈ (p.scope c).symbols ∨ (c = t ∧ s = ⟨p.symbols.size⟩) := by
      have hmem := hs.mem
      rcases scope_introduce_cases p sym t n c with heq | ⟨rfl, heq⟩ <;> rw [heq] at hmem
      · exact .inl hmem
      · exact (List.mem_append.mp hmem).imp_right fun h => ⟨rfl, List.mem_singleton.mp h⟩
    rcases hmem with hmem | ⟨rfl, rfl⟩
    · have hold : (Binding.introduce p sym t n).symbol s = p.symbol s :=
        symbol_introduce_of_lt (hw.listed hmem).1
      exact .inl ⟨hmem, hold ▸ hs.name, hold ▸ hs.isInterface⟩
    · obtain rfl : sym.name = x := hnew ▸ hs.name
      exact .inr ⟨rfl, .introduce hw hapart hlt (hnew ▸ hs.isInterface)⟩

end Introduce

end Merging

namespace Binding

variable {src : Source} {file : FileId} {n : NodeId} {c : Option ScopeId} {p q : Program}
  {st st' : State}

/-- **A step of a visit keeps interfaces of one name together.** -/
theorem Change.merging (h : Change src file n p q) (hw : WellScoped p) (hp : Merging p) :
    Merging q := by
  have hg := h.grows
  cases h with
  | scope kind outer n =>
    exact hp.of_same hw hg (Program.names_openScope _ ⟨rfl, rfl, rfl⟩ outer) fun _ _ h => h
  | markScope | markShape | markClass | markSpecifier | table | member | module | ambient =>
    exact hp.of_same hw hg (fun _ => ⟨rfl, rfl, rfl⟩) fun _ _ h => h
  | symbol sym | alias_ sym | newMember _ _ sym =>
    refine hp.of_same hw hg (fun _ => ⟨rfl, rfl, rfl⟩) fun s hlt h => ?_
    have hold : (p.addSymbol sym).symbol s = p.symbol s :=
      (Program.symbol_addSymbol s).trans (if_neg hlt.ne)
    exact hold ▸ h
  | touch m f hf =>
    refine hp.of_modified hw hg rfl rfl fun x h => ?_
    rwa [Symbol.has, (hf x).traits] at h
  | fill m n =>
    refine hp.of_modified hw hg rfl rfl fun x h => ?_
    split at h <;> exact h
  | joinMember t text m traits n _ _ _ _ _ htraits =>
    refine hp.of_modified (m := m) (f := fun x => x.joined traits n) hw hg rfl rfl fun x h => ?_
    rw [Symbol.has, Symbol.joined, Traits.has_union,
      Traits.has_eq_false htraits (by decide), Bool.or_false] at h
    exact h
  | property m cls isPrivate =>
    refine hp.of_modified hw hg rfl rfl fun x h => ?_
    have hinsert : (x.traits.insertIf true .property).has .interfaceDecl =
        x.traits.has .interfaceDecl := Traits.has_insertIf _ (by decide)
    rw [Symbol.has, Traits.has_insertIf _ (by decide)] at h
    exact hinsert.symm.trans h
  | join target text m traits n hown => exact hp.join hw hown
  | import_ sym target n hscope _ _ halias _ _ _ hlt _ hinterface =>
    refine hp.introduce hw (fun e he => ⟨fun h => ?_, fun _ => ?_⟩) hscope hlt
    · exact absurd (hinterface.symm.trans h) Bool.false_ne_true
    · exact Traits.Le.meets_right Traits.le_union_right halias

/-- **A visit keeps interfaces of one name together.** -/
theorem Run.merging (h : Run src file c n st st') (hw : WellScoped st.2) (hs : SpaceSound st.2)
    (hp : Merging st.2) : Merging st'.2 := by
  induction h with
  | refl => exact hp
  | trans h₁ _ ih₁ ih₂ => exact ih₂ (h₁.wellScoped hw) (h₁.spaceSound hw hs) (ih₁ hw hs hp)
  | within _ _ ih => exact ih hw hs hp
  | change h => exact h.merging hw hp
  | introduce sym target n hscope _ _ _ _ _ hlt hplace hrival =>
    refine hp.introduce hw (fun e he => ⟨fun hi => ?_, fun hi => ?_⟩) hscope hlt
    · exact Traits.meets_rivals_of_first (hrival e he) hi
        (Program.isAny_lexicalTraits hs (Scope.knows_of_own? he))
    · exact Traits.meets_rivals_of_second (hrival e he) hi hplace.meets
  | nested _ _ _ ih => exact ih hw hs hp

end Binding

/-! ### The finished program -/

namespace Program

variable {src : Source} {p q : Program} {d n : NodeId} {s : SymbolId} {c : ScopeId} {x : String}

/-- Before anything is declared no scope lists anything. -/
theorem merging_opened (src : Source) : Merging (opened src) := by
  have hopening := opening src
  have hnone {c : ScopeId} {s : SymbolId} : s ∉ ((opened src).scope c).symbols := fun hs =>
    nomatch (hopening.scopeless s).symm.trans (hopening.wellScoped.listed hs).2
  exact ⟨fun hs => absurd hs.mem hnone, fun hs => absurd hs.mem hnone⟩

theorem merging_bound (hs : src.LaidOut) : Merging (bound src) :=
  (bound_of_run (I := fun p => WellScoped p ∧ SpaceSound p ∧ Merging p) hs
    ⟨(opening src).wellScoped, spaceSound_opened src, merging_opened src⟩ fun h hp =>
      ⟨h.wellScoped hp.1, h.spaceSound hp.1 hp.2.1, h.merging hp.1 hp.2.1 hp.2.2⟩).2.2

/-- The name of an interface declares the symbol in the scope. -/
structure DeclaresInterface (p : Program) (d : NodeId) (s : SymbolId) (c : ScopeId) : Prop where
  kind : p.source.kind d = "interface_declaration"
  declared : ∃ n, p.source.child? d "name" = some n ∧ p.source.kind n = "type_identifier" ∧
    p.declared[n]? = some s
  inScope : (p.symbol s).scope = some c

/-- What the name of an interface declares is an interface. -/
theorem isInterface_of_entitles (hs : src.LaidOut) {sym : Symbol}
    (hkind : src.kind d = "interface_declaration") (hname : src.child? d "name" = some n)
    (hn : src.kind n = "type_identifier") (h : Binding.Entitles src n sym) :
    sym.has .interfaceDecl = true := by
  have hparent := hs.parent_eq (Source.mem_children_of_child? hname)
  have houter {outer : NodeId} (hmem : n ∈ src.children outer) :
      src.kind outer = "interface_declaration" := by
    rw [Option.some.inj ((hs.parent_eq hmem).symm.trans hparent), hkind]
  cases h with
  | lexical _ place =>
    cases place with
    | name outer _ _ hchild htrait =>
      rwa [houter (Source.mem_children_of_child? hchild)] at htrait
    | namespace_ _ _ hk hchild =>
      rw [houter (Source.mem_children_of_child? hchild)] at hk
      exact absurd hk (by decide)
    | head _ _ hk hmem | inferred _ _ hk hmem | parameter _ _ hk hmem =>
      rw [houter hmem] at hk
      exact absurd hk (by decide)
    | pattern _ _ hk =>
      rw [hn] at hk
      exact absurd hk (by decide)
  | member place =>
    cases place with
    | member _ _ hk hmem | method _ _ _ _ _ _ _ hk hmem =>
      rw [houter hmem] at hk
      exact absurd hk (by decide)
    | enumerator _ _ _ _ _ _ hk =>
      rw [hn] at hk
      exact absurd hk (by decide)
    | assigned _ _ hk hchild =>
      rw [houter (Source.mem_children_of_child? hchild)] at hk
      exact absurd hk (by decide)
  | alias_ place =>
    obtain ⟨_, hmem, hk⟩ := place
    rw [houter hmem] at hk
    exact absurd hk (by decide)

/-- It is listed there, and was when everything was declared. -/
theorem DeclaresInterface.listsInterface (hs : src.LaidOut)
    (h : (ofSource src).DeclaresInterface d s c) :
    (bound src).ListsInterface c ((ofSource src).symbol s).name s := by
  have hsource := source_ofSource hs
  obtain ⟨n, hname, hn, hdeclared⟩ := h.declared
  rw [hsource] at hname hn
  obtain ⟨hlt, hkept⟩ := kept_ofSource (h.inScope.trans_ne (Option.some_ne_none c))
  have hscope : ((bound src).symbol s).scope = some c := hkept.scope.symm.trans h.inScope
  have hbound : (bound src).declared[n]? = some s := by
    rcases (extends_linked src).declared_cases n with heq | ⟨s', hs', _, _, hnone⟩
    · rw [declared_linked] at heq
      exact heq.symm.trans hdeclared
    · obtain rfl : s' = s := Option.some.inj (hs'.symm.trans hdeclared)
      exact nomatch h.inScope.symm.trans hnone
  refine ⟨?_, hkept.name.symm, ?_⟩
  · have hcount := (declSound_bound hs).once s c hscope
    exact List.count_pos_iff.mp (hcount ▸ Nat.one_pos)
  · exact isInterface_of_entitles hs (hsource ▸ h.kind) hname hn (entitles_of_declared hs hbound)

/-- Interfaces declared under one name in a scope are one symbol, or something that is no part
of interfaces has the name there and was declared before the second symbol. -/
def InterfacesMerge (p : Program) : Prop :=
  ∀ d d' s s' c, p.DeclaresInterface d s c → p.DeclaresInterface d' s' c →
    (p.symbol s').name = (p.symbol s).name →
      s = s' ∨ ∃ r, p.Contests c (p.symbol s).name r ∧ r.idx ≤ max s.idx s'.idx

/-- **Interfaces of one name merge as long as nothing else has the name.** -/
theorem interfacesMerge_of_build {files : List ParsedFile} (h : build files = .ok p) :
    p.InterfacesMerge := by
  obtain ⟨src, rfl, hs⟩ := laidOut_of_build h
  intro d d' s s' c hd hd' hname
  have hlists := hd.listsInterface hs
  have hlists' := hd'.listsInterface hs
  rw [hname] at hlists'
  have hscopes : (ofSource src).scope c = (bound src).scope c := by
    rw [scope, scope, (extends_linked src).scopes_eq, scopes_linked]
  rcases (merging_bound hs).merged hlists hlists' with heq | ⟨r, hr, hle⟩
  · exact .inl heq
  · exact .inr ⟨r, hr.grows (wellScoped_bound hs) (grows_ofSource src) (hscopes ▸ .refl _), hle⟩

/-- Two interfaces of one name, and a variable that comes too late to part them. -/
def sharedBox : ParsedFile where
  path := "main.ts"
  contents := "interface Box { size: 1 }\ninterface Box { width: 2 }\nconst Box = 3".toUTF8
  tree :=
    .node "program" "" true 0 66 [
      .node "interface_declaration" "" true 0 25 [
        .node "type_identifier" "name" true 10 13 [],
        .node "interface_body" "body" true 14 25 [
          .node "property_signature" "" true 16 23 [
            .node "property_identifier" "name" true 16 20 [],
            .node "type_annotation" "type" true 20 23 [
              .node "literal_type" "" true 22 23 [.node "number" "" true 22 23 []]]]]],
      .node "interface_declaration" "" true 26 52 [
        .node "type_identifier" "name" true 36 39 [],
        .node "interface_body" "body" true 40 52 [
          .node "property_signature" "" true 42 50 [
            .node "property_identifier" "name" true 42 47 [],
            .node "type_annotation" "type" true 47 50 [
              .node "literal_type" "" true 49 50 [.node "number" "" true 49 50 []]]]]],
      .node "lexical_declaration" "" true 53 66 [
        .node "const" "kind" false 53 58 [],
        .node "variable_declarator" "" true 59 66 [
          .node "identifier" "name" true 59 62 [],
          .node "number" "value" true 65 66 []]]]

theorem interfacesMerge_of_build_sharedBox : ∃ p, build [sharedBox] = .ok p ∧ p.InterfacesMerge :=
  ⟨_, build_singleton sharedBox, interfacesMerge_of_build (build_singleton sharedBox)⟩

end Program
end Moniker
