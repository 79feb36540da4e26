/-
# Whose names a new name avoids

A new name could be confused with the name of another symbol, its rival.  A rival
of a lexical name is in a scope around it or inside its own; a rival of a member is
a member of the same owner, of a type that the owner inherits from, or of an heir
that extends the owner directly.  A hard-private member has its rivals in its own
class only.

`Fixes` says of a list of names that it has those of all rivals that do not move,
and `domainFixed_fixes` that the names worked out for a domain are such a list.  What
extends what is worked out on the way, so the rivals of a member are those of the
answers that were given there (`Build.RunAt`).
-/

import Moniker.Proofs.Entries
import Moniker.Proofs.Hierarchy
import Moniker.Proofs.Binding.WellScoped

namespace Moniker

open Program (Asked Later)
open Build (Inquires)

namespace Program

variable {p : Program} {d : Declaration} {t : TypeId} {owner : SymbolId}

/-- The declaration is the first of a class or interface. -/
structure IntroducesType (p : Program) (d : Declaration) : Prop where
  declared : d ∈ p.source.fileIds.flatMap p.declarations
  trait : ((p.symbol d.symbol).has .classDecl || (p.symbol d.symbol).has .interfaceDecl) = true
  first : (p.symbol d.symbol).decls.head? = some d.node

/-- A base of the type is the type of the owner. -/
def ExtendsDirectly (p : Program) (t : TypeId) (owner : SymbolId) : Prop :=
  ∃ b ∈ (p.typeInfo t).bases, (p.typeInfo b).symbol = some owner

end Program

namespace Allocator

variable {p q final : Program} {a : Allocator} {d : Domain} {e : Entry} {s m : SymbolId}
  {s? : Option ScopeId}

/-! ### Only types are worked out -/

theorem findHeirs_inquires : Inquires findHeirs := by
  refine .bind (.read _) fun _ => .bind (.read _) fun _ => .bind (.read _) fun _ => ?_
  exact .bind (.mapM fun _ _ => .bind (.declaredTypeOf _) fun _ => .read _) fun _ => .pure _

theorem domainFixed_inquires (a : Allocator) (d : Domain) : Inquires (a.domainFixed d) := by
  cases d with
  | lexical s? => exact .bind (.read _) fun _ => .pure _
  | hardPrivate owner => exact .bind (.read _) fun _ => .pure _
  | members owner =>
    refine .bind (.read _) fun _ => .bind (.declaredTypeOf _) fun _ => .bind (.read _) fun _ => ?_
    dsimp only
    split
    · exact .bind (.pure _) fun _ => .bind (.read _) fun _ => .pure _
    · exact .bind findHeirs_inquires fun _ => .bind (.read _) fun _ => .pure _

/-- What the owner is the name of is asked on the way to the names of its members. -/
theorem runAt_declaredTypeOf (a : Allocator) (owner : SymbolId) (q : Program) :
    (Build.declaredTypeOf owner).RunAt q ((a.domainFixed (.members owner)).after q) q := by
  refine ⟨.refl, ?_⟩
  unfold domainFixed
  rw [Build.after_bind, Build.after_bind]
  refine Inquires.bind (.read _) (fun _ => ?_) _
  dsimp only
  split
  · exact .bind (.pure _) fun _ => .bind (.read _) fun _ => .pure _
  · exact .bind findHeirs_inquires fun _ => .bind (.read _) fun _ => .pure _

/-- Heirs that are not remembered are looked for on the way. -/
theorem runAt_findHeirs (h : a.heirs = none) (owner : SymbolId) (q : Program) :
    findHeirs.RunAt q ((a.domainFixed (.members owner)).after q)
      ((Build.declaredTypeOf owner).after q) := by
  refine ⟨Inquires.declaredTypeOf owner q, ?_⟩
  unfold domainFixed
  simp only [h, Build.after_bind, Build.after_read, Build.after_pure]
  exact .refl

/-! ### Neighbours -/

theorem neighbours_later (h : Later p q) : neighbours q s? = neighbours p s? := by
  cases s? with
  | none => rfl
  | some c =>
    have hinside : ∀ fuel c, scopesInside q fuel c = scopesInside p fuel c := by
      intro fuel
      induction fuel with
      | zero => exact fun _ => rfl
      | succ fuel ih =>
        intro c
        unfold scopesInside
        rw [h.scope_eq, funext ih]
    have hsymbols : (fun c => (q.scope c).symbols) = fun c => (p.scope c).symbols :=
      funext fun c => by rw [h.scope_eq]
    dsimp only [neighbours]
    rw [h.outward_eq, hinside, Program.Extends.scopes_eq h, hsymbols]

/-- A neighbour is a symbol of a scope. -/
theorem exists_scope_of_mem_neighbours (h : s ∈ neighbours p s?) : ∃ c, s ∈ (p.scope c).symbols := by
  cases s? with
  | none => exact nomatch h
  | some c =>
    obtain ⟨c, _, hs⟩ := List.mem_flatMap.mp h
    exact ⟨c, hs⟩

theorem name_later (hw : WellScoped p) (h : Later p q) (hs : s ∈ neighbours p s?) :
    (q.symbol s).name = (p.symbol s).name := by
  obtain ⟨c, hs⟩ := exists_scope_of_mem_neighbours hs
  exact (Program.Extends.symbol_kept h (hw.listed hs).1).name

/-- The name of a neighbour that does not move is fixed. -/
theorem name_mem_lexicalNames (hw : WellScoped p) (h : Later p q) (hs : s ∈ neighbours p s?)
    (hm : s ∉ a.moving) : (p.symbol s).name ∈ a.lexicalNames q s? := by
  rw [← name_later hw h hs]
  refine List.mem_map.mpr ⟨s, List.mem_filter.mpr ⟨?_, ?_⟩, rfl⟩
  · rwa [neighbours_later h]
  · simpa using hm

/-! ### Members -/

/-- The members of an owner, the hard-private ones or the others. -/
def ownMembers (p : Program) (hard : Bool) (owner : SymbolId) : List SymbolId :=
  (p.membersOf owner ++ p.staticsOf owner).filter fun m => (p.symbol m).has .hardPrivate == hard

/-- An owner keeps its members, and they stay hard-private or not. -/
theorem mem_ownMembers_later {hard : Bool} {owner : SymbolId} (h : Later p q)
    (hlt : m.idx < p.symbols.size) (hm : m ∈ ownMembers p hard owner) :
    m ∈ ownMembers q hard owner := by
  obtain ⟨hmem, hhard⟩ := List.mem_filter.mp hm
  have howner : owner.idx < p.symbols.size := by
    by_contra hge
    have hnone : p.symbol owner = default := getD_of_size_le (Nat.le_of_not_lt hge)
    rw [Program.membersOf, Program.staticsOf, hnone] at hmem
    exact absurd hmem List.not_mem_nil
  refine List.mem_filter.mpr ⟨Program.Extends.members_kept h howner hmem, ?_⟩
  rw [(Program.Extends.symbol_kept h hlt).hard]
  exact hhard

/-! ### Fixed names -/

section Fixes

variable (p final : Program) (moving : KeySet SymbolId) (fixed : List String)

/-- The names that members of an owner keep are in the list. -/
def OwnFixed (hard : Bool) (owner : SymbolId) : Prop :=
  ∀ m ∈ ownMembers p hard owner, m.idx < p.symbols.size → m ∉ moving →
    (p.symbol m).name ∈ fixed

/-- The names that members of what an owner extends keep are in the list. -/
def InheritedFixed (owner : SymbolId) : Prop :=
  ∃ q, (Build.declaredTypeOf owner).RunAt p final q ∧
    ∀ t u m, (Build.declaredTypeOf owner).value q = some t →
    ((Build.declaredTypeOf owner).after q).Inherits t u →
    m ∈ ((Build.declaredTypeOf owner).after q).typeMembers u → m ∉ moving →
    (((Build.declaredTypeOf owner).after q).symbol m).name ∈ fixed

/-- The names that members of the heirs of an owner keep are in the list. -/
def HeirsFixed (owner : SymbolId) : Prop :=
  ∃ q, Asked p q ∧ ∀ d, q.IntroducesType d → d.symbol ≠ owner →
    ∃ q', (Build.declaredTypeOf d.symbol).RunAt q final q' ∧
    ∀ t, (Build.declaredTypeOf d.symbol).value q' = some t →
      ((Build.declaredTypeOf d.symbol).after q').ExtendsDirectly t owner →
      OwnFixed p moving fixed false d.symbol

/-- The names that the rivals of a domain keep are in the list. -/
def Fixes : Domain → Prop
  | .lexical s? => ∀ s ∈ neighbours p s?, s ∉ moving → (p.symbol s).name ∈ fixed
  | .hardPrivate owner => OwnFixed p moving fixed true owner
  | .members owner => OwnFixed p moving fixed false owner ∧
      InheritedFixed p final moving fixed owner ∧ HeirsFixed p final moving fixed owner

/-- The heirs that are remembered are those that were found. -/
def HeirsFound (heirs? : Option (List (SymbolId × SymbolId))) : Prop :=
  ∀ heirs, heirs? = some heirs → ∃ q, findHeirs.RunAt p final q ∧ heirs = findHeirs.value q

end Fixes

variable {moving moving' : KeySet SymbolId} {fixed fixed' : List String} {hard : Bool}
  {owner : SymbolId}

theorem OwnFixed.mono (h : OwnFixed p moving fixed hard owner)
    (hm : ∀ s ∈ moving, s ∈ moving') (hf : ∀ x ∈ fixed, x ∈ fixed') :
    OwnFixed p moving' fixed' hard owner :=
  fun m hmem hlt hns => hf _ (h m hmem hlt fun hin => hns (hm m hin))

theorem InheritedFixed.mono (h : InheritedFixed p final moving fixed owner)
    (hm : ∀ s ∈ moving, s ∈ moving') (hf : ∀ x ∈ fixed, x ∈ fixed') :
    InheritedFixed p final moving' fixed' owner := by
  obtain ⟨q, hq, hinherited⟩ := h
  refine ⟨q, hq, fun t u m ht hu hmem hns => hf _ ?_⟩
  exact hinherited t u m ht hu hmem fun hin => hns (hm m hin)

theorem HeirsFixed.mono (h : HeirsFixed p final moving fixed owner)
    (hm : ∀ s ∈ moving, s ∈ moving') (hf : ∀ x ∈ fixed, x ∈ fixed') :
    HeirsFixed p final moving' fixed' owner := by
  obtain ⟨q, hq, hheirs⟩ := h
  refine ⟨q, hq, fun d hd hne => ?_⟩
  obtain ⟨q', hq', hown⟩ := hheirs d hd hne
  exact ⟨q', hq', fun t ht hext => (hown t ht hext).mono hm hf⟩

/-- If more symbols move, fewer names are kept. -/
theorem Fixes.mono (h : Fixes p final moving fixed d) (hm : ∀ s ∈ moving, s ∈ moving') :
    Fixes p final moving' fixed d := by
  cases d with
  | lexical s? => exact fun s hs hns => h s hs fun hin => hns (hm s hin)
  | hardPrivate owner => exact OwnFixed.mono h hm fun _ hx => hx
  | members owner =>
    obtain ⟨hown, hinherited, hheirs⟩ := h
    exact ⟨hown.mono hm fun _ hx => hx, hinherited.mono hm fun _ hx => hx,
      hheirs.mono hm fun _ hx => hx⟩

theorem mem_fixedNames {syms : List SymbolId} (hs : s ∈ syms) (hm : s ∉ a.moving) :
    (q.symbol s).name ∈ a.fixedNames q syms := by
  refine List.mem_map.mpr ⟨s, List.mem_filter.mpr ⟨hs, ?_⟩, rfl⟩
  simpa using hm

theorem ownFixed_memberNames (h : Later p q) (a : Allocator) (hard : Bool) (owner : SymbolId) :
    OwnFixed p a.moving (a.memberNames q hard owner) hard owner := by
  intro m hmem hlt hns
  rw [← (Program.Extends.symbol_kept h hlt).name]
  exact mem_fixedNames (mem_ownMembers_later h hlt hmem) hns

/-- The names kept by the members of what the declared type of an owner extends. -/
theorem inheritedFixed_baseNames (h : (Build.declaredTypeOf owner).RunAt p final q)
    (a : Allocator) : InheritedFixed p final a.moving
      (((((Build.declaredTypeOf owner).value q).map fun t =>
        (((Build.declaredTypeOf owner).after q).typeInfo t).bases).getD []).flatMap
          (a.baseNames ((Build.declaredTypeOf owner).after q))) owner := by
  refine ⟨q, h, fun t u m ht hu hm hns => ?_⟩
  obtain ⟨b, hb, hmem⟩ := Program.mem_basesWithin hu
  rw [ht]
  refine List.mem_flatMap.mpr ⟨b, hb, ?_⟩
  exact mem_fixedNames (List.mem_flatMap.mpr ⟨u, hmem, hm⟩) hns

/-- **Whatever extends an owner directly is found.** -/
theorem exists_mem_findHeirs {d : Program.Declaration} (hd : q.IntroducesType d) (hne : d.symbol ≠ owner) :
    ∃ q', (Build.declaredTypeOf d.symbol).RunAt q (findHeirs.after q) q' ∧
      ∀ t, (Build.declaredTypeOf d.symbol).value q' = some t →
        ((Build.declaredTypeOf d.symbol).after q').ExtendsDirectly t owner →
        (owner, d.symbol) ∈ findHeirs.value q := by
  unfold findHeirs
  simp only [Build.value_bind, Build.value_read, Build.after_read, Build.value_pure,
    Build.after_bind, Build.after_pure]
  have hmem : d ∈ (q.source.fileIds.flatMap q.declarations).filter fun d =>
      ((q.symbol d.symbol).has .classDecl || (q.symbol d.symbol).has .interfaceDecl) &&
        (q.symbol d.symbol).decls.head? == some d.node := by
    rw [List.mem_filter, hd.trait, hd.first]
    exact ⟨hd.declared, by simp⟩
  obtain ⟨q', hq', hpairs⟩ := Inquires.exists_mem_mapM
    (fun d _ => .bind (.declaredTypeOf d.symbol) fun _ => .read _) hmem
  refine ⟨q', ⟨hq'.before, ?_⟩, fun t ht ⟨b, hb, hsymbol⟩ =>
    List.mem_flatten.mpr ⟨_, hpairs, ?_⟩⟩
  · exact hq'.after
  · simp only [Build.value_bind, Build.value_read, ht]
    refine List.mem_filterMap.mpr ⟨b, hb, ?_⟩
    rw [hsymbol, Option.filter_some, if_pos (by simpa using hne.symm)]
    rfl

/-- The names kept by the members of the heirs found at `q₁`. -/
theorem heirsFixed_flatMap {q₁ q₂ : Program} (h₁ : findHeirs.RunAt p final q₁) (h₂ : Later p q₂)
    (a : Allocator) (owner : SymbolId) :
    HeirsFixed p final a.moving (((findHeirs.value q₁).filter fun h => h.1 == owner).flatMap
      fun h => a.memberNames q₂ false h.2) owner := by
  refine ⟨q₁, h₁.before, fun d hd hne => ?_⟩
  obtain ⟨q', hq', hfound⟩ := exists_mem_findHeirs hd hne
  refine ⟨q', hq'.widen .refl h₁.after, fun t ht hext => ?_⟩
  refine (ownFixed_memberNames h₂ a false d.symbol).mono (fun _ h => h) fun x hx => ?_
  have hmem : (owner, d.symbol) ∈ (findHeirs.value q₁).filter fun h => h.1 == owner :=
    List.mem_filter.mpr ⟨hfound t ht hext, beq_self_eq_true owner⟩
  exact List.mem_flatMap.mpr ⟨(owner, d.symbol), hmem, hx⟩

/-- Three lists that each have their part have all together. -/
theorem fixes_members {own inherited below : List String} (h₁ : OwnFixed p moving own false owner)
    (h₂ : InheritedFixed p final moving inherited owner) (h₃ : HeirsFixed p final moving below owner) :
    Fixes p final moving (own ++ inherited ++ below) (.members owner) := by
  refine ⟨h₁.mono (fun _ h => h) fun x hx => ?_, h₂.mono (fun _ h => h) fun x hx => ?_,
    h₃.mono (fun _ h => h) fun x hx => ?_⟩
  · exact List.mem_append_left _ (List.mem_append_left _ hx)
  · exact List.mem_append_left _ (List.mem_append_right _ hx)
  · exact List.mem_append_right _ hx

/-- **The names worked out for a domain are those its rivals keep.** -/
theorem domainFixed_fixes (hw : WellScoped p) (ha : HeirsFound p final a.heirs) (d : Domain)
    (h : (a.domainFixed d).RunAt p final q) :
    ∃ heirs, ((a.domainFixed d).value q).2 = { a with heirs := heirs } ∧
      HeirsFound p final heirs ∧ Fixes p final a.moving ((a.domainFixed d).value q).1 d := by
  have hq : Later p q := h.later
  cases d with
  | lexical s? =>
    exact ⟨a.heirs, rfl, ha, fun s hs hns => name_mem_lexicalNames hw hq hs hns⟩
  | hardPrivate owner => exact ⟨a.heirs, rfl, ha, ownFixed_memberNames hq a true owner⟩
  | members owner =>
    let q₁ := (Build.declaredTypeOf owner).after q
    have hq₁ : Later p q₁ := hq.trans ((Inquires.declaredTypeOf owner).later q)
    have hown := ownFixed_memberNames hq a false owner
    have hinherited := inheritedFixed_baseNames
      ((runAt_declaredTypeOf a owner q).widen h.before h.after) a
    cases hheirs : a.heirs with
    | some heirs =>
      obtain ⟨q₀, hq₀, rfl⟩ := ha heirs hheirs
      unfold domainFixed
      simp only [Build.value_bind, Build.value_read, Build.after_read, hheirs]
      refine ⟨some (findHeirs.value q₀), rfl, ?_, ?_⟩
      · intro heirs' h
        exact ⟨q₀, hq₀, (Option.some.inj h).symm⟩
      · exact fixes_members hown hinherited (heirsFixed_flatMap hq₀ hq₁ a owner)
    | none =>
      have hfind := (runAt_findHeirs hheirs owner q).widen h.before h.after
      have hq₂ : Later p (findHeirs.after q₁) := hq₁.trans (findHeirs_inquires.later q₁)
      unfold domainFixed
      simp only [Build.value_bind, Build.value_read, Build.after_read, Build.value_pure, hheirs]
      refine ⟨some (findHeirs.value q₁), rfl, ?_, ?_⟩
      · intro heirs' h
        exact ⟨q₁, hfind, (Option.some.inj h).symm⟩
      · exact fixes_members hown hinherited (heirsFixed_flatMap hfind hq₂ a owner)

end Allocator
end Moniker
