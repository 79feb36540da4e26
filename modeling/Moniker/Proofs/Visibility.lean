/-
# Listing and looking up values

A scope lists its symbols in order and has a table of values beside the list.  The table is
filled where symbols are declared and where declarations join them, and it keeps the first
symbol it gets for a name.  The list is filtered by what the symbols are in the end, and
symbols become more as declarations join them.

Both agree (`ValuesFirst`): what the table has for a name is the first symbol of the list that
has the name and is a value.  A declaration joins what the scope has under its name, which is
the value if there is one.  So a symbol comes to be a value late only where no other symbol of
the name is one, and every step of a visit keeps the agreement (`Change.valuesFirst`).

Hence what a name denotes as a value is the first symbol of that name among those that can be
seen from the scope (`Program.lookupValue?_eq_find_of_build`).
-/

import Moniker.Proofs.Merging
import Moniker.Program.Occurrences
import Mathlib.Data.List.Find

namespace Moniker
namespace Traits

variable {a c : Traits} {t : Trait}

/-- A trait that a set has nothing of does not matter to it. -/
theorem meets_insertIf_of_not {cond : Bool} (h : c.has t = false) :
    (a.insertIf cond t).meets c = a.meets c := by
  cases ha : a.meets c with
  | true => exact le_insertIf.meets ha
  | false => exact meets_insertIf_eq_false ha h

/-- What no name in a scope is, is no value. -/
theorem meets_value_eq_false (h : a.meets Source.lexicalTraits = false) :
    a.meets value = false := by
  by_contra hvalue
  rw [Bool.not_eq_false] at hvalue
  have hle : value.Le Source.lexicalTraits := le_union_left
  exact Bool.false_ne_true (h.symm.trans (hle.meets_right hvalue))

end Traits

/-- A scope has for a name what it had, or else what registers as a value of that name. -/
theorem Scope.values_register {sc : Scope} {id : SymbolId} {sym : Symbol} {x : String} :
    (sc.register id sym).values[x]? =
      (sc.values[x]?).or (if sym.name == x && sym.isAny Traits.value then some id else none) := by
  cases hvalue : sym.isAny Traits.value with
  | false => simp [register, hvalue]
  | true =>
    simp only [register, hvalue, if_true, Table.getElem?_insertIfNew, Bool.and_true]
    cases hx : sc.values[x]? with
    | some v =>
      have hmem : x ∈ sc.values := by
        rw [Std.TreeMap.mem_iff_isSome_getElem?, hx]
        rfl
      rw [if_neg fun h => h.2 (eq_of_beq h.1 ▸ hmem), Option.some_or]
    | none =>
      have hfree : x ∉ sc.values := by
        rw [Std.TreeMap.mem_iff_isSome_getElem?, hx]
        exact Bool.false_ne_true
      rw [Option.none_or]
      refine if_congr ⟨And.left, fun h => ⟨h, eq_of_beq h ▸ hfree⟩⟩ rfl rfl

namespace Program

/-- Does the symbol have the name, as a value? -/
def isValueNamed (p : Program) (x : String) (s : SymbolId) : Bool :=
  (p.symbol s).name == x && (p.symbol s).isAny Traits.value

end Program

/-- A scope knows as a value of a name the first value of that name that it lists. -/
def ValuesFirst (p : Program) : Prop :=
  ∀ c x, (p.scope c).values[x]? = (p.scope c).symbols.find? (p.isValueNamed x)

namespace ValuesFirst

variable {p q : Program} {c t : ScopeId} {x text : String} {s m : SymbolId} {sym : Symbol}
  {traits : Traits} {n : NodeId}

/-- A step that changes neither what scopes list and know as values nor which of the listed
symbols are values. -/
theorem of_same (h : ValuesFirst p)
    (hsame : ∀ c, (q.scope c).symbols = (p.scope c).symbols ∧
      (q.scope c).values = (p.scope c).values)
    (hnamed : ∀ {c s}, s ∈ (p.scope c).symbols → ∀ x, q.isValueNamed x s = p.isValueNamed x s) :
    ValuesFirst q := by
  intro c x
  rw [(hsame c).1, (hsame c).2, h c x]
  exact (List.find?_congr fun _ hs => hnamed hs x).symm

/-- A change of one symbol that keeps its name and whether it is a value. -/
theorem of_modified {f : Symbol → Symbol} (h : ValuesFirst p) (hscopes : q.scopes = p.scopes)
    (hsymbols : q.symbols = (p.modifySymbol m f).symbols)
    (hf : ∀ x : Symbol, (f x).name = x.name ∧ (f x).isAny Traits.value = x.isAny Traits.value) :
    ValuesFirst q := by
  refine h.of_same (fun c => ?_) fun {c s} _ x => ?_
  · rw [Program.scope, hscopes]
    exact ⟨rfl, rfl⟩
  · have hsym : q.symbol s = (p.modifySymbol m f).symbol s := by
      rw [Program.symbol, hsymbols]
      rfl
    rw [Program.isValueNamed, hsym, Program.symbol_modifySymbol]
    split
    · rw [(hf _).1, (hf _).2]
      rfl
    · rfl

/-- A new symbol is the last of its scope. -/
theorem introduce (h : ValuesFirst p) (hw : WellScoped p) :
    ValuesFirst (Binding.introduce p sym t n) := by
  have hnew : (Binding.introduce p sym t n).symbol ⟨p.symbols.size⟩ = sym := Binding.symbol_introduce
  have hold {c : ScopeId} (x : String) :
      (p.scope c).symbols.find? ((Binding.introduce p sym t n).isValueNamed x) =
        (p.scope c).values[x]? := by
    rw [h c x]
    refine List.find?_congr fun s hs => ?_
    rw [Program.isValueNamed, Merging.symbol_introduce_of_lt (hw.listed hs).1, Program.isValueNamed]
  intro c x
  rcases Merging.scope_introduce_cases p sym t n c with heq | ⟨rfl, heq⟩ <;> rw [heq]
  · exact (hold x).symm
  · -- The list gets the symbol at its end, the table gets it if the name is free.
    rw [Scope.declare, Scope.values_register]
    change _ = ((p.scope c).symbols ++ [(⟨p.symbols.size⟩ : SymbolId)]).find? _
    rw [List.find?_append, hold, List.find?_singleton, Program.isValueNamed, hnew]

theorem isValueNamed_joinInto (hs : s ≠ m) :
    (Binding.joinInto p t m traits n).isValueNamed x s = p.isValueNamed x s := by
  have hsymbol : (Binding.joinInto p t m traits n).symbol s = p.symbol s :=
    (Program.symbol_modifySymbol s).trans (if_neg fun heq => hs (congrArg SymbolId.mk heq.1.symm))
  rw [Program.isValueNamed, hsymbol, Program.isValueNamed]

theorem isValueNamed_joinInto_self (hm : m.idx < p.symbols.size) :
    (Binding.joinInto p t m traits n).isValueNamed x m =
      ((p.symbol m).name == x && ((p.symbol m).joined traits n).isAny Traits.value) := by
  have hjoined : (Binding.joinInto p t m traits n).symbol m = (p.symbol m).joined traits n :=
    (Program.symbol_modifySymbol m).trans (if_pos ⟨rfl, hm⟩)
  rw [Program.isValueNamed, hjoined]
  rfl

/-- A scope that lists something is there to register it. -/
theorem scope_joinInto (hm : m.idx < p.symbols.size) (hlisted : m ∈ (p.scope t).symbols) :
    (Binding.joinInto p t m traits n).scope t =
      (p.scope t).register m ((p.symbol m).joined traits n) := by
  have hlt : t.idx < p.scopes.size := by
    by_contra hge
    rw [Program.scope, getD_of_size_le (Nat.le_of_not_lt hge)] at hlisted
    exact List.not_mem_nil hlisted
  have hjoined : (p.modifySymbol m fun x => x.joined traits n).symbol m =
      (p.symbol m).joined traits n := (Program.symbol_modifySymbol m).trans (if_pos ⟨rfl, hm⟩)
  rw [← hjoined]
  exact (Program.scope_modifyScope t).trans (if_pos ⟨rfl, hlt⟩)

/-- Where a name has a value, no other symbol of the name comes to be one: what a declaration
joins under the name is that value. -/
theorem isValueNamed_joinInto_of_value {v : SymbolId} (hw : WellScoped p) (h : ValuesFirst p)
    (hown : (p.scope t).own? text = some m) (hvalue : (p.scope t).values[x]? = some v)
    (s : SymbolId) :
    (Binding.joinInto p t m traits n).isValueNamed x s = p.isValueNamed x s := by
  obtain ⟨hlisted, hname⟩ := hw.own? hown
  by_cases hs : s = m
  · subst hs
    rw [isValueNamed_joinInto_self (hw.listed hlisted).1]
    by_cases hx : text = x
    · subst hx
      obtain rfl : s = v := Option.some.inj (hown.symm.trans (Scope.own?_of_values hvalue))
      have hnamed : p.isValueNamed text s = true := List.find?_some ((h t text).symm.trans hvalue)
      rw [hnamed, Bool.and_eq_true]
      rw [Program.isValueNamed, Bool.and_eq_true] at hnamed
      exact ⟨hnamed.1, Traits.le_union_left.meets hnamed.2⟩
    · rw [Program.isValueNamed, hname, beq_eq_false_iff_ne.mpr hx, Bool.false_and, Bool.false_and]
  · exact isValueNamed_joinInto hs

/-- The list of the scope that a declaration joins: its first value of a name is the one it
had, or the symbol joined if that is a value now. -/
theorem find?_joinInto (hw : WellScoped p) (h : ValuesFirst p)
    (hown : (p.scope t).own? text = some m) :
    (p.scope t).symbols.find? ((Binding.joinInto p t m traits n).isValueNamed x) =
      ((p.scope t).values[x]?).or
        (if (Binding.joinInto p t m traits n).isValueNamed x m then some m else none) := by
  obtain ⟨hlisted, -⟩ := hw.own? hown
  cases hvalue : (p.scope t).values[x]? with
  | some v =>
    rw [Option.some_or, ← (h t x).symm.trans hvalue]
    exact List.find?_congr fun s _ => isValueNamed_joinInto_of_value hw h hown hvalue s
  | none =>
    -- The name has no value, so the symbol joined can be the only one.
    have hnone := List.find?_eq_none.mp ((h t x).symm.trans hvalue)
    have honly : ∀ s ∈ (p.scope t).symbols,
        (Binding.joinInto p t m traits n).isValueNamed x s = true → s = m := by
      intro s hs hnamed
      by_contra hne
      exact hnone s hs ((isValueNamed_joinInto hne).symm.trans hnamed)
    rw [Option.none_or]
    split
    · next hm =>
      obtain ⟨s, hs⟩ := Option.isSome_iff_exists.mp (List.find?_isSome.mpr ⟨m, hlisted, hm⟩)
      rw [hs, honly s (List.mem_of_find?_eq_some hs) (List.find?_some hs)]
    · next hm =>
      refine List.find?_eq_none.mpr fun s hs hnamed => hm ?_
      rwa [honly s hs hnamed] at hnamed

/-- What joins a symbol of a name makes a value of it at most where the name had none. -/
theorem join (h : ValuesFirst p) (hw : WellScoped p) (hown : (p.scope t).own? text = some m) :
    ValuesFirst (Binding.joinInto p t m traits n) := by
  obtain ⟨hlisted, -⟩ := hw.own? hown
  obtain ⟨hlt, hscope⟩ := hw.listed hlisted
  intro c x
  by_cases hc : c = t
  · subst hc
    rw [scope_joinInto hlt hlisted, Scope.values_register]
    refine Eq.trans ?_ (find?_joinInto hw h hown).symm
    rw [isValueNamed_joinInto_self hlt]
    rfl
  · -- The symbol belongs to its scope alone.
    rcases Merging.scope_joinInto_cases hlt t traits n c with heq | ⟨heq, -⟩
    · rw [heq, h c x]
      refine (List.find?_congr fun s hs => isValueNamed_joinInto fun hsm => hc ?_).symm
      have hother := (hw.listed hs).2
      rw [hsm] at hother
      exact Option.some.inj (hother.symm.trans hscope)
    · exact absurd heq hc

end ValuesFirst

namespace Binding

variable {src : Source} {file : FileId} {n : NodeId} {c : Option ScopeId} {p q : Program}
  {st st' : State}

/-- **A step of a visit keeps lists and tables of values together.** -/
theorem Change.valuesFirst (h : Change src file n p q) (hw : WellScoped p) (hp : ValuesFirst p) :
    ValuesFirst q := by
  cases h with
  | scope kind outer n =>
    refine hp.of_same (fun c => ?_) fun _ _ => rfl
    obtain ⟨hsymbols, hvalues, -⟩ :=
      Program.names_openScope { kind := kind, parent := some outer, node := some n } ⟨rfl, rfl, rfl⟩
        outer c
    exact ⟨hsymbols, hvalues⟩
  | markScope | markShape | markClass | markSpecifier | table | member | module | ambient =>
    exact hp.of_same (fun _ => ⟨rfl, rfl⟩) fun _ _ => rfl
  | symbol sym | alias_ sym | newMember _ _ sym =>
    refine hp.of_same (fun _ => ⟨rfl, rfl⟩) fun {c s} hs x => ?_
    have hold : (p.addSymbol sym).symbol s = p.symbol s :=
      (Program.symbol_addSymbol s).trans (if_neg (hw.listed hs).1.ne)
    exact congrArg (fun sym : Symbol => sym.name == x && sym.isAny Traits.value) hold
  | touch m f hf =>
    refine hp.of_modified rfl rfl fun x => ⟨(hf x).name, ?_⟩
    rw [Symbol.isAny, (hf x).traits, Symbol.isAny]
  | fill m n =>
    refine hp.of_modified rfl rfl fun x => ?_
    split <;> exact ⟨rfl, rfl⟩
  | joinMember t text m traits n _ _ _ _ _ htraits =>
    exact hp.of_modified (m := m) (f := fun x => x.joined traits n) rfl rfl fun x =>
      ⟨rfl, Traits.meets_union_of_not (Traits.meets_value_eq_false htraits)⟩
  | property m cls isPrivate =>
    refine hp.of_modified rfl rfl fun x => ⟨rfl, ?_⟩
    have hinsert : (x.traits.insertIf true .property).meets Traits.value =
        x.traits.meets Traits.value := Traits.meets_insertIf_of_not (by decide)
    exact (Traits.meets_insertIf_of_not (by decide)).trans hinsert
  | join target text m traits n hown => exact hp.join hw hown
  | import_ sym target n => exact hp.introduce hw

/-- **A visit keeps lists and tables of values together.** -/
theorem Run.valuesFirst (h : Run src file c n st st') (hw : WellScoped st.2)
    (hp : ValuesFirst st.2) : ValuesFirst st'.2 := by
  induction h with
  | refl => exact hp
  | trans h₁ _ ih₁ ih₂ => exact ih₂ (h₁.wellScoped hw) (ih₁ hw hp)
  | within _ _ ih => exact ih hw hp
  | change h => exact h.valuesFirst hw hp
  | introduce sym target n => exact hp.introduce hw
  | nested _ _ _ ih => exact ih hw hp

end Binding

/-! ### The finished program -/

namespace Program

variable {src : Source} {p q : Program} {c : ScopeId} {cs : List ScopeId} {x : String}

/-- **Questions about types keep lists and tables of values together.** -/
theorem Extends.valuesFirst (h : Extends src p q) (hw : WellScoped p) (hp : ValuesFirst p) :
    ValuesFirst q := by
  have hscope (c : ScopeId) : q.scope c = p.scope c := by rw [scope, scope, h.scopes_eq]
  refine hp.of_same (fun c => by rw [hscope]; exact ⟨rfl, rfl⟩) fun {c s} hs x => ?_
  obtain ⟨hlt, hs⟩ := hw.listed hs
  have hkept := h.symbol_kept hlt
  have htraits := hkept.traits (hs.trans_ne (Option.some_ne_none c))
  rw [isValueNamed, hkept.name, Symbol.isAny, htraits]
  rfl

/-- Before anything is declared scopes list nothing and know nothing. -/
theorem valuesFirst_opened (src : Source) : ValuesFirst (opened src) := by
  have hopening := opening src
  intro c x
  have hempty : ((opened src).scope c).symbols = [] := by
    refine List.eq_nil_iff_forall_not_mem.mpr fun s hs => ?_
    exact nomatch (hopening.scopeless s).symm.trans (hopening.wellScoped.listed hs).2
  rw [hempty, List.find?_nil]
  refine Option.eq_none_iff_forall_not_mem.mpr fun s hs => ?_
  have hlisted := (hopening.wellScoped.known (.inl hs)).1
  rw [hempty] at hlisted
  exact List.not_mem_nil hlisted

theorem valuesFirst_bound (hs : src.LaidOut) : ValuesFirst (bound src) :=
  (bound_of_run (I := fun p => WellScoped p ∧ ValuesFirst p) hs
    ⟨(opening src).wellScoped, valuesFirst_opened src⟩ fun h hp =>
      ⟨h.wellScoped hp.1, h.valuesFirst hp.1 hp.2⟩).2

theorem valuesFirst_ofSource (hs : src.LaidOut) : ValuesFirst (ofSource src) := by
  have hlinked : ValuesFirst (linked src) := by
    refine (valuesFirst_bound hs).of_same (fun c => ?_) fun _ x => ?_
    · rw [scope, scopes_linked]
      exact ⟨rfl, rfl⟩
    · rw [isValueNamed, symbol, symbols_linked]
      rfl
  exact (extends_linked src).valuesFirst
    ((wellScoped_bound hs).of_eq (scopes_linked src) (symbols_linked src)) hlinked

/-! ### What can be seen -/

/-- The names of values of a scope are those of the values it lists. -/
theorem not_mem_namesIn (h : (p.scope c).symbols.find? (p.isValueNamed x) = none) :
    x ∉ p.namesIn Traits.value c := by
  intro hx
  obtain ⟨s, hs, hname⟩ := List.mem_map.mp hx
  obtain ⟨hmem, hvalue⟩ := List.mem_filter.mp hs
  refine List.find?_eq_none.mp h s hmem ?_
  rw [isValueNamed, Bool.and_eq_true]
  exact ⟨beq_iff_eq.mpr hname, hvalue⟩

/-- Of the values that a scope adds to what can be seen, the first of a name that is not hidden
is the first of the scope. -/
theorem find?_own {values : List String} (hx : x ∉ values) (ss : List SymbolId) :
    (ss.filter fun s => (p.symbol s).isAny Traits.value &&
      !((p.symbol s).isAny Traits.value && values.contains (p.symbol s).name)).find?
        (fun s => (p.symbol s).name == x) = ss.find? (p.isValueNamed x) := by
  rw [List.find?_filter]
  refine List.find?_congr fun s _ => ?_
  rw [isValueNamed]
  by_cases hname : (p.symbol s).name = x
  · have hseen : values.contains (p.symbol s).name = false := by
      rwa [hname, ← Bool.not_eq_true, List.contains_iff_mem]
    rw [hseen, Bool.and_false, Bool.not_false, Bool.and_true, Bool.and_comm, Bool.decide_and,
      Bool.decide_eq_true, Bool.decide_eq_true]
  · rw [beq_eq_false_iff_ne.mpr hname, Bool.false_and]
    exact decide_eq_false fun h => Bool.false_ne_true h.2

/-- The first symbol of a name that can be seen is the first value of the name in the first
scope that has one. -/
theorem find?_visibleThrough (cs : List ScopeId) : ∀ {values types : List String}, x ∉ values →
    (p.visibleThrough Traits.value cs values types).find? (fun s => (p.symbol s).name == x) =
      cs.findSome? fun c => (p.scope c).symbols.find? (p.isValueNamed x) := by
  induction cs with
  | nil => exact fun _ => rfl
  | cons c cs ih =>
    intro values types hx
    have hmask : Traits.value.meets Traits.value = true := by decide
    rw [visibleThrough, List.find?_append, List.findSome?_cons]
    simp only [hmask, if_true]
    rw [find?_own hx]
    cases hfirst : (p.scope c).symbols.find? (p.isValueNamed x) with
    | some s => rw [Option.some_or]
    | none =>
      have hrest : x ∉ values ++ p.namesIn Traits.value c := fun h =>
        (List.mem_append.mp h).elim hx (not_mem_namesIn hfirst)
      rw [Option.none_or, ih hrest]

theorem lookupValue?_eq_find (h : ValuesFirst p) (c : ScopeId) (x : String) :
    p.lookupValue? c x =
      (p.visibleSymbols c Traits.value).find? fun s => (p.symbol s).name == x := by
  rw [lookupValue?, visibleSymbols, find?_visibleThrough _ List.not_mem_nil]
  exact congrArg (fun f => (p.outward c).findSome? f) (funext fun c => h c x)

/-- **What can be seen and what a name denotes agree.**  In every scope of a program that is
built, whatever has been asked of it since, a value name denotes the first symbol of that name
among the values that can be seen from the scope, and nothing only if none of them has it. -/
theorem lookupValue?_eq_find_of_build {files : List ParsedFile} (h : build files = .ok p)
    (hasked : Asked p q) (c : ScopeId) (x : String) :
    q.lookupValue? c x =
        ((q.visibleSymbols c Traits.value).find? fun s => (q.symbol s).name == x) ∧
      (q.lookupValue? c x = none ↔
        ∀ s ∈ q.visibleSymbols c Traits.value, (q.symbol s).name ≠ x) := by
  obtain ⟨src, rfl, hs⟩ := laidOut_of_build h
  have hfirst : ValuesFirst q :=
    hasked.extends.valuesFirst (wellScoped_ofSource hs) (valuesFirst_ofSource hs)
  refine ⟨lookupValue?_eq_find hfirst c x, ?_⟩
  rw [lookupValue?_eq_find hfirst, List.find?_eq_none]
  simp only [beq_iff_eq, ne_eq]

/-- An interface that becomes a value when a namespace joins it. -/
def lateBox : ParsedFile where
  path := "main.ts"
  contents := "interface Box \x7b\x7d\nnamespace Box \x7b\x7d".toUTF8
  tree :=
    .node "program" "" true 0 33 [
      .node "interface_declaration" "" true 0 16 [
        .node "interface" "" false 0 9 [],
        .node "type_identifier" "name" true 10 13 [],
        .node "interface_body" "body" true 14 16 []],
      .node "expression_statement" "" true 17 33 [
        .node "internal_module" "" true 17 33 [
          .node "namespace" "" false 17 26 [],
          .node "identifier" "name" true 27 30 [],
          .node "statement_block" "body" true 31 33 []]]]

theorem lookupValue?_eq_find_of_build_lateBox : ∃ p q, build [lateBox] = .ok p ∧ Asked p q ∧
    q.lookupValue? globalScope "Box" =
      (q.visibleSymbols globalScope Traits.value).find? fun s => (q.symbol s).name == "Box" :=
  have hasked : ∀ p, Asked p ((Build.typeOfNode ⟨3⟩).after p) := fun p => .single (.typeOfNode p ⟨3⟩)
  ⟨_, _, build_singleton lateBox, hasked _,
    (lookupValue?_eq_find_of_build (build_singleton lateBox) (hasked _) globalScope "Box").1⟩

end Program
end Moniker
