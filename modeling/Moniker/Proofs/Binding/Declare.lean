/-
# Declaring keeps to its place

`declare` either joins a symbol that its scope knows under the name or introduces a
new one (`declare_cases`).  In both cases the scope it lands in fits the file, so it
is a step of a visit (`Keeps.declare`); so are the declarations of imports and of
members.
-/

import Moniker.Proofs.Binding.Keeps

namespace Moniker
namespace Binding

variable {src : Source} {site : Site} {r name : NodeId} {s : ScopeId} {p : Program}
  {P : Program → Prop} {traits : Traits}

theorem around_of_mem_outwardWithin {fuel : Nat} {t : ScopeId} (h : t ∈ p.outwardWithin fuel s) :
    Around p s t := by
  induction fuel generalizing s with
  | zero => exact nomatch h
  | succ fuel ih =>
    unfold Program.outwardWithin at h
    split at h
    · rw [List.mem_singleton.mp h]
      exact .refl
    · next outer hp =>
      rcases List.mem_cons.mp h with rfl | h
      · exact .refl
      · exact Relation.ReflTransGen.head hp (ih h)

theorem around_hoistTarget : Around p s (hoistTarget p s) := by
  unfold hoistTarget
  cases h : (p.outward s).find? _ with
  | none => exact .refl
  | some t => exact around_of_mem_outwardWithin (List.mem_of_find?_eq_some h)

/-- A declaration lands in a scope around it or in the global scope. -/
theorem landing_cases (p : Program) (site : Site) (s : ScopeId) (traits : Traits) :
    landing p site s traits = Program.globalScope ∨
      (Around p s (landing p site s traits) ∧
        (hoists traits = false → landing p site s traits = s)) := by
  have h : landing p site s traits = Program.globalScope ∨
      landing p site s traits = if hoists traits then hoistTarget p s else s := by
    unfold landing
    generalize (if hoists traits then hoistTarget p s else s) = target
    dsimp only
    split
    · exact .inl rfl
    · exact .inr rfl
  rcases h with h | h
  · exact .inl h
  · refine .inr ?_
    rw [h]
    split
    · next hh => exact ⟨around_hoistTarget, fun h' => nomatch hh.symm.trans h'⟩
    · exact ⟨.refl, fun _ => rfl⟩

theorem fits_of_around {t : ScopeId} (hat : At src site s p) (ht : Around p s t) :
    Fits src p site.file (traits.insertIf site.ambient .ambient) t := by
  rcases (hat t ht).2 with h | h | h
  · exact .inl h
  · refine .inr (.inl ?_)
    rw [h]
    exact Traits.has_insert
  · exact .inr (.inr h)

theorem landing_lt (hk : Known src site r p) (hat : At src site s p) :
    (landing p site s traits).idx < p.scopes.size := by
  rcases landing_cases p site s traits with h | ⟨h, _⟩
  · rw [h]
    exact hk.global.1
  · exact (hat _ h).1

theorem fits_landing (hat : At src site s p) :
    Fits src p site.file (traits.insertIf site.ambient .ambient) (landing p site s traits) := by
  rcases landing_cases p site s traits with h | ⟨h, _⟩
  · exact .inl h
  · exact fits_of_around hat h

/-- The symbol that a declaration introduces. -/
def newSymbol (src : Source) (site : Site) (target : ScopeId) (name : NodeId) (traits : Traits) :
    Symbol :=
  { name := nameOf src name, traits := traits.insertIf site.ambient .ambient, decls := [name]
    scope := some target, file := site.file }

/-- **A name joins a symbol that its scope knows, or introduces a new one.** -/
theorem declare_cases (src : Source) (site : Site) (s : ScopeId) (name : NodeId) (traits : Traits)
    (l : List SymbolId) (p : Program) :
    (∃ e, (p.scope (landing p site s traits)).own? (nameOf src name) = some e ∧
      Bind.value (declare src site s name traits) (l, p) = e ∧
      Bind.after (declare src site s name traits) (l, p) =
        (l, joinInto p (landing p site s traits) e (traits.insertIf site.ambient .ambient) name)) ∨
    ((∀ e, (p.scope (landing p site s traits)).own? (nameOf src name) = some e →
        mergeable (p.symbol e).traits (traits.insertIf site.ambient .ambient) = false) ∧
      Bind.value (declare src site s name traits) (l, p) = ⟨p.symbols.size⟩ ∧
      Bind.after (declare src site s name traits) (l, p) =
        (if site.collecting = some (landing p site s traits) then l ++ [⟨p.symbols.size⟩] else l,
          introduce p (newSymbol src site (landing p site s traits) name traits)
            (landing p site s traits) name)) := by
  unfold declare
  simp only [Bind.after_bind, Bind.value_bind, Bind.after_lift, Bind.value_lift, Build.after_read,
    Build.value_read]
  cases hfind : Option.filter
      (fun e => mergeable (p.symbol e).traits (traits.insertIf site.ambient .ambient))
      ((p.scope (landing p site s traits)).own? (nameOf src name)) with
  | some e => exact .inl ⟨e, (Option.filter_eq_some_iff.mp hfind).1, rfl, rfl⟩
  | none =>
    have hrival : ∀ e, (p.scope (landing p site s traits)).own? (nameOf src name) = some e →
        mergeable (p.symbol e).traits (traits.insertIf site.ambient .ambient) = false := by
      intro e he
      rw [he] at hfind
      simpa [Option.filter] using hfind
    refine .inr ⟨hrival, ?_⟩
    by_cases hc : site.collecting = some (landing p site s traits)
    · simp only [hc, beq_self_eq_true, if_true]
      exact ⟨rfl, rfl⟩
    · simp only [beq_eq_false_iff_ne.mpr hc, hc, if_false, Bool.false_eq_true]
      exact ⟨rfl, rfl⟩

theorem Keeps.declare (hat : ∀ p, Known src site r p → P p → At src site s p)
    (hn : src.Below r name) (hplace : src.Lexical traits name) :
    Keeps src site r P (declare src site s name traits) := by
  intro l p hk hp
  rcases declare_cases src site s name traits l p with
    ⟨e, he, -, hafter⟩ | ⟨hrival, -, hafter⟩
  · rw [hafter]
    exact .change (.join p _ _ e _ name he hn (fits_landing (hat p hk hp))
      (spells_nameOf src name) (hplace.mono Traits.le_insertIf))
  · rw [hafter]
    refine .introduce _ _ name rfl rfl rfl hn (fits_landing (hat p hk hp)) ?_
      (landing_lt hk (hat p hk hp)) (hplace.mono Traits.le_insertIf) hrival rfl
    dsimp only [newSymbol]
    exact spells_nameOf src name

theorem grows_declare (l : List SymbolId) :
    p.Grows (Bind.after (declare src site s name traits) (l, p)).2 := by
  rcases declare_cases src site s name traits l p with ⟨e, -, -, hafter⟩ | ⟨-, -, hafter⟩
  · rw [hafter]
    exact grows_joinInto ..
  · rw [hafter]
    exact grows_introduce ..

/-- The symbol of a declaration is in the scope where it landed and has its traits. -/
theorem declare_spec (hw : WellScoped p) (l : List SymbolId) :
    let sym := Bind.value (declare src site s name traits) (l, p)
    let q := (Bind.after (declare src site s name traits) (l, p)).2
    sym.idx < q.symbols.size ∧ (q.symbol sym).scope = some (landing p site s traits) ∧
      traits.Le (q.symbol sym).traits := by
  rcases declare_cases src site s name traits l p with
    ⟨e, he, hvalue, hafter⟩ | ⟨-, hvalue, hafter⟩
  · obtain ⟨hlt, hscope⟩ := hw.listed (hw.own? he).1
    dsimp only
    rw [hvalue, hafter]
    have hsym : (joinInto p (landing p site s traits) e (traits.insertIf site.ambient .ambient)
        name).symbol e = (p.symbol e).joined (traits.insertIf site.ambient .ambient) name := by
      refine Eq.trans (Program.symbol_modifySymbol e) ?_
      rw [if_pos ⟨rfl, hlt⟩]
    refine ⟨lt_of_lt_of_eq hlt Program.symbols_size_modifySymbol.symm, ?_, ?_⟩
    · rw [hsym]
      exact hscope
    · rw [hsym]
      exact Traits.le_insertIf.trans Traits.le_union_right
  · dsimp only
    rw [hvalue, hafter]
    have hsym : (introduce p (newSymbol src site (landing p site s traits) name traits)
        (landing p site s traits) name).symbol ⟨p.symbols.size⟩ =
        newSymbol src site (landing p site s traits) name traits := by
      refine Eq.trans (Program.symbol_addSymbol _) ?_
      rw [if_pos rfl]
    refine ⟨lt_of_lt_of_eq (Nat.lt_succ_self _) Program.symbols_size_addSymbol.symm, ?_, ?_⟩
    · rw [hsym]
      rfl
    · rw [hsym]
      exact Traits.le_insertIf

theorem Keeps.declare? {name? : Option NodeId}
    (hat : ∀ p, Known src site r p → P p → At src site s p)
    (hn : ∀ name, name? = some name → src.Below r name ∧ src.Lexical traits name) [Stable P] :
    Keeps src site r P (declare? src site s name? traits) := by
  cases name? with
  | none => exact .pure _
  | some name => exact .bind (.declare hat (hn name rfl).1 (hn name rfl).2) fun _ => .pure _

theorem Keeps.declareImport {specifier imported : String} {t : Trait}
    (ht : (Traits.of [t]).meets Traits.aliasing = true)
    (hat : ∀ p, Known src site r p → P p → At src site s p) (hn : src.Below r name)
    (hplace : src.AliasName name) :
    Keeps src site r P (declareImport src site s name (Traits.of [t]) specifier imported) := by
  intro l p hk hp
  have hinterface : (Traits.of [t]).has .interfaceDecl = false := by
    cases t <;> first | rfl | exact nomatch ht
  refine .change (.import_ p _ s name rfl rfl rfl (Traits.le_insertIf.meets ht) hn
    (fits_of_around (hat p hk hp) .refl) ?_ (hat p hk hp s .refl).1 hplace
    ((Traits.has_insertIf _ (by decide)).trans hinterface) rfl)
  dsimp only
  exact .inl rfl

theorem declareMember_run {file : FileId} {c : Option ScopeId} {ambient : Bool} {t : TableId}
    {owner : SymbolId} {l : List SymbolId} (hn : src.Below r name) (hplace : src.MemberName name)
    (htraits : traits.meets Source.lexicalTraits = false) :
    Run src file c r (l, p) (l, (declareMember src file ambient t owner name traits).after p) := by
  unfold declareMember
  simp only [Build.after_bind, Build.value_get, Build.after_get]
  have hquoted : isLiteralName src name = true →
      ((traits.insertIf (isLiteralName src name) .quoted).insertIf ambient .ambient).has .quoted =
        true := by
    intro h
    rw [h]
    exact Traits.le_insertIf.has Traits.has_insert
  split
  · next existing hfind =>
    obtain ⟨e, he, heq⟩ : ∃ e, (p.table t).entries.find? (fun e => e.1 == nameOf src name) = some e ∧
        e.2 = existing := by simpa [MemberTable.find?] using hfind
    have hmem := List.mem_of_find?_eq_some he
    have hkey := @List.find?_some _ (fun e : String × SymbolId => e.1 == nameOf src name) _ _ he
    refine .change (.joinMember p t e.1 existing _ name (by rw [← heq]; exact hmem) hn
      (beq_iff_eq.mp hkey ▸ spells_nameOf src name) hplace hquoted ?_)
    refine Traits.meets_insertIf_eq_false (Traits.meets_insertIf_eq_false htraits ?_) ?_ <;> decide
  · exact .change (.newMember p t _ _ name rfl rfl hn (spells_nameOf src name) rfl hplace hquoted rfl)

theorem Keeps.declareMember {ambient : Bool} {t : TableId} {owner : SymbolId}
    (hn : src.Below r name) (hplace : src.MemberName name)
    (htraits : traits.meets Source.lexicalTraits = false) :
    Keeps src site r P
      (liftM (Binding.declareMember src site.file ambient t owner name traits)) :=
  fun _ _ _ _ => declareMember_run hn hplace htraits

theorem ensureMembers_run {file : FileId} {c : Option ScopeId} {l : List SymbolId}
    (sym : SymbolId) : Run src file c r (l, p) (l, (Build.ensureMembers sym).after p) := by
  unfold Build.ensureMembers
  simp only [Build.after_bind, Build.value_get, Build.after_get]
  split
  · exact .refl
  · exact (Run.change (.table p)).trans
      (.change (.touch _ sym _ fun _ => ⟨rfl, rfl, rfl, rfl, rfl, rfl, rfl, rfl⟩))

theorem Keeps.ensureMembers (sym : SymbolId) :
    Keeps src site r P (liftM (Build.ensureMembers sym)) := fun _ _ _ _ => ensureMembers_run sym

theorem Keeps.ensureStatics (sym : SymbolId) :
    Keeps src site r P (liftM (Build.ensureStatics sym)) := by
  intro l p _ _
  rw [Bind.after_lift]
  unfold Build.ensureStatics
  simp only [Build.after_bind, Build.value_get, Build.after_get]
  split
  · exact .refl
  · exact (Run.change (.table p)).trans
      (.change (.touch _ sym _ fun _ => ⟨rfl, rfl, rfl, rfl, rfl, rfl, rfl, rfl⟩))

end Binding
end Moniker
