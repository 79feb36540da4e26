/-
# What classes and interfaces extend, from then on

What a class or interface extends is worked out when its type is first asked for.  What
was decided by it at one time holds of whatever is found later: the class declares the type
that it declared then (`sideOf_lasts`), and from this type on the bases are what they were,
since all of them are types that were there (`Upholds`).

A class or interface always declares a type (`isSome_declaredTypeOf`).  An alias declares
what it stands for, if that is anything, so a class that is an alias as well is left out
here (`IsNominal`).

The names that were fixed by what was extended then are fixed for good: those of all that
an owner inherits from (`InheritedFixed.name_mem`) and of its heirs (`HeirsFixed.ownFixed`).
-/

import Moniker.Proofs.Rivals
import Moniker.Proofs.Snapshot
import Moniker.Proofs.Termination.Programs

namespace Moniker

open Build (Inquires)

namespace Program

variable {src : Source} {files : List ParsedFile} {p q r final : Program} {s owner : SymbolId}
  {t u : TypeId} {static : Bool}

/-! ### Classes and interfaces -/

/-- The symbol is a class or an interface, and no import or export alias besides. -/
structure IsNominal (p : Program) (s : SymbolId) : Prop where
  trait : ((p.symbol s).has .classDecl || (p.symbol s).has .interfaceDecl) = true
  notAlias : ((p.symbol s).has .importBinding || (p.symbol s).has .exportAlias) = false

/-- A symbol with a trait is there. -/
theorem lt_size_of_trait (h : ((p.symbol s).has .classDecl || (p.symbol s).has .interfaceDecl) = true) :
    s.idx < p.symbols.size := by
  by_contra hge
  rw [symbol_of_size_le (not_lt.mp hge)] at h
  exact absurd h (by decide)

/-- **A class or interface declares a type,** whatever has been asked before. -/
theorem isSome_declaredTypeOf (h : p.IsNominal s) :
    ((Build.declaredTypeOf s).value p).isSome = true := by
  obtain ⟨fuel, hsolve⟩ := @Typing.exists_run_solve p.source (.declaredBy s) p
  change ((Typing.solve p.source (.declaredBy s)).run p).1.isSome = true
  rw [hsolve]
  refine Typing.remembered_cases (I := fun r => r.1.isSome = true) (fun _ _ => rfl) (fun _ => rfl)
    fun _ _ => ?_
  let opened : Program := { p with pending := p.pending.insert (.declaredBy s) }
  change ((Typing.declaredType p.source (Typing.answerWithin p.source fuel) s).run opened).1.isSome = true
  unfold Typing.declaredType
  rw [Query.run_read_bind]
  have hsymbol : opened.symbol s = p.symbol s := rfl
  rw [hsymbol, h.notAlias, h.trait, if_neg Bool.false_ne_true, if_pos rfl]
  rfl

/-! ### Types that there are -/

/-- The types there are stay what they are apart from alias names, and extend types there are. -/
structure Upholds (p q : Program) : Prop where
  kept : ∀ t, p.Knows t → (p.typeInfo t).Kept (q.typeInfo t)
  bases : ∀ t, ∀ u ∈ (p.typeInfo t).bases, p.Knows u

namespace Upholds

/-- What a type extends is what it extended. -/
theorem inherits (h : p.Upholds q) (ht : p.Knows t) (hu : q.Inherits t u) :
    p.Inherits t u ∧ p.Knows u := by
  have hback {x y : TypeId} (hx : p.Knows x)
      (hstep : y ∈ (q.typeInfo x).bases ∧ (q.typeInfo y).kind = .object) :
      (y ∈ (p.typeInfo x).bases ∧ (p.typeInfo y).kind = .object) ∧ p.Knows y := by
    obtain ⟨hbase, hkind⟩ := hstep
    rw [(h.kept x hx).bases_eq] at hbase
    have hy := h.bases x y hbase
    rw [(h.kept y hy).kind_eq] at hkind
    exact ⟨⟨hbase, hkind⟩, hy⟩
  induction hu with
  | single hstep =>
    obtain ⟨hstep, hu⟩ := hback ht hstep
    exact ⟨.single hstep, hu⟩
  | tail _ hstep ih =>
    obtain ⟨hstep, hu⟩ := hback ih.2 hstep
    exact ⟨ih.1.tail hstep, hu⟩

theorem extendsDirectly (h : p.Upholds q) (ht : p.Knows t) (hext : q.ExtendsDirectly t owner) :
    p.ExtendsDirectly t owner := by
  obtain ⟨b, hb, hsymbol⟩ := hext
  rw [(h.kept t ht).bases_eq] at hb
  exact ⟨b, hb, (h.kept b (h.bases t b hb)).symbol_eq ▸ hsymbol⟩

end Upholds

/-! ### Sides -/

/-- The type of one side of an owner: of the class itself for static members, and of its
instances for the others. -/
def sideOf (owner : SymbolId) : Bool → Build (Option TypeId)
  | true => do return some (← Build.typeOfSymbol owner)
  | false => Build.declaredTypeOf owner

theorem sideOf_inquires (owner : SymbolId) (static : Bool) : Inquires (sideOf owner static) := by
  cases static with
  | true => exact .bind (.typeOfSymbol owner) fun _ => .pure _
  | false => exact .declaredTypeOf owner

section

variable (hs : src.LaidOut) (hq : Asked (ofSource src) q)
include hs hq

theorem Asked.allLinked_ofSource : Typing.AllLinked q.source q := by
  refine hq.allLinked ?_
  rw [source_ofSource hs]
  exact Program.allLinked_ofSource hs

theorem Asked.upholds (hr : Asked q r) : q.Upholds r where
  kept := ((hr.rested (hq.allLinked_ofSource hs)).answers trivial).kept
  bases t u hu := (((hq.sound hs).infos t).bases u hu).1

/-- The type of a side is there when it has been asked for. -/
theorem Asked.knows_sideOf (ht : (sideOf owner static).value q = some t) :
    ((sideOf owner static).after q).Knows t := by
  cases static with
  | true => exact Option.some.inj ht ▸ hq.knows_typeOfSymbol hs owner
  | false => exact hq.knows_declaredTypeOf hs owner t ht

end

/-- Classes and interfaces stay what they are. -/
theorem IsNominal.asked (h : p.IsNominal s) (hp : Typing.AllLinked p.source p) (hq : Asked p q) :
    q.IsNominal s := by
  have htraits := ((hq.rested hp).answers trivial).traits s (lt_size_of_trait h.trait)
  constructor <;> simp only [Symbol.has, htraits]
  · exact h.trait
  · exact h.notAlias

/-- **A side of a class or interface has one type from then on.** -/
theorem sideOf_lasts (hs : src.LaidOut) (hq : Asked (ofSource src) q)
    (howner : q.IsNominal owner) (static : Bool) : (sideOf owner static).Lasts q := by
  have hlinked : Typing.AllLinked (ofSource src).source (ofSource src) :=
    Asked.allLinked_ofSource hs .refl
  have hidle : Typing.Idle q := (idle_ofSource hs).rested (hq.rested hlinked)
  have hall := hq.allLinked_ofSource hs
  cases static with
  | true =>
    have hlasts := lasts_ask hall (.typeOfSymbol owner) (Query.typeOfSymbol_stays hidle owner)
    exact fun r hr => congrArg some (hlasts r hr)
  | false =>
    exact lasts_ask hall (.declaredTypeOf owner)
      (Query.declaredTypeOf_stays hall hidle (isSome_declaredTypeOf howner))

/-! ### What was extended at one time -/

/-- What a side is found to extend, it extended when it was asked for before. -/
structure ExtendedAt (p q : Program) (side : Build (Option TypeId)) (t : TypeId) : Prop where
  value : side.value p = some t
  upholds : (side.after p).Upholds (side.after q)
  knows : (side.after p).Knows t

/-- **What a side is found to extend, it extended already when it was asked for on the way.** -/
theorem extendedAt_of_runAt (hs : src.LaidOut) (howner : (ofSource src).IsNominal owner)
    (hrun : (sideOf owner static).RunAt (ofSource src) final p) (hq : Asked final q)
    (ht : (sideOf owner static).value q = some t) : ExtendedAt p q (sideOf owner static) t := by
  have hp := hrun.before
  have hlinked : Typing.AllLinked (ofSource src).source (ofSource src) :=
    Asked.allLinked_ofSource hs .refl
  have hvalue := sideOf_lasts hs hp (howner.asked hlinked hp) static q (hrun.after.trans hq)
  have hafter : Asked (ofSource src) ((sideOf owner static).after p) :=
    hp.trans (sideOf_inquires owner static p)
  have hsince : Asked ((sideOf owner static).after p) ((sideOf owner static).after q) :=
    (hrun.after.trans hq).trans (sideOf_inquires owner static q)
  rw [ht] at hvalue
  exact ⟨hvalue.symm, hafter.upholds hs hsince, hp.knows_sideOf hs hvalue.symm⟩

/-- A table that something is in stays as it was. -/
theorem Asked.table_eq (hs : src.LaidOut) (hq : Asked (ofSource src) q) {own : TableId}
    {e : String × SymbolId} (he : e ∈ ((ofSource src).table own).entries) :
    q.table own = (ofSource src).table own := by
  refine ((hq.rested (Asked.allLinked_ofSource hs .refl)).answers trivial).tables.2 own ?_
  by_contra hge
  rw [table_of_size_le (not_lt.mp hge)] at he
  exact absurd he List.not_mem_nil

/-- The first declaration of a class or interface stays that. -/
theorem IntroducesType.asked {d : Declaration} (h : p.IntroducesType d)
    (hp : Typing.AllLinked p.source p) (hq : Asked p q) : q.IntroducesType d := by
  have hrested := hq.rested hp
  have hlt := lt_size_of_trait h.trait
  have htraits := (hrested.answers trivial).traits d.symbol hlt
  have hdeclarations : q.declarations = p.declarations := by
    funext f
    rw [declarations, declarations, hq.extends.source_eq, (hrested.index trivial).declared]
  refine ⟨?_, ?_, ?_⟩
  · rw [hq.extends.source_eq, hdeclarations]
    exact h.declared
  · simp only [Symbol.has, htraits]
    exact h.trait
  · rw [(hrested.index trivial).decls d.symbol hlt]
    exact h.first

end Program

/-! ### Names that were fixed -/

namespace Allocator

variable {src : Source} {q final : Program} {moving : KeySet SymbolId} {fixed : List String}
  {owner s : SymbolId} {d : Program.Declaration} {t u : TypeId} {own : TableId}

section

variable (hs : src.LaidOut) (hq : Program.Asked final q)
include hs hq

/-- **The names that are kept by what an owner is found to extend were fixed.** -/
theorem InheritedFixed.name_mem
    (h : InheritedFixed (Program.ofSource src) final moving fixed owner)
    (howner : (Program.ofSource src).IsNominal owner)
    (ht : (Build.declaredTypeOf owner).value q = some t)
    (hu : ((Build.declaredTypeOf owner).after q).Inherits t u)
    (hown : (((Build.declaredTypeOf owner).after q).typeInfo u).members = some own)
    (hmem : s ∈ ((Program.ofSource src).table own).symbols)
    (hlt : s.idx < (Program.ofSource src).symbols.size) (hstays : s ∉ moving) :
    ((Program.ofSource src).symbol s).name ∈ fixed := by
  obtain ⟨q₀, hrun, hinherited⟩ := h
  obtain ⟨hvalue, hupholds, hknows⟩ :=
    @Program.extendedAt_of_runAt src q₀ q final owner t false hs howner hrun hq ht
  obtain ⟨hu, hknown⟩ := hupholds.inherits hknows hu
  have hafter : Program.Asked (Program.ofSource src) ((Build.declaredTypeOf owner).after q₀) :=
    hrun.before.trans (Inquires.declaredTypeOf owner q₀)
  have hsame : (((Build.declaredTypeOf owner).after q₀).typeInfo u).members = some own :=
    (hupholds.kept u hknown).members_eq.symm.trans hown
  obtain ⟨e, he, rfl⟩ := List.mem_map.mp hmem
  rw [← (hafter.extends.symbol_kept hlt).name]
  refine hinherited t u e.2 hvalue hu ?_ hstays
  rw [Program.typeMembers, hsame, Option.map_some, Option.getD_some, hafter.table_eq hs he]
  exact hmem

/-- **The names that are kept by members of what is found to extend an owner were fixed.** -/
theorem HeirsFixed.ownFixed (h : HeirsFixed (Program.ofSource src) final moving fixed owner)
    (hintro : (Program.ofSource src).IntroducesType d)
    (hnominal : (Program.ofSource src).IsNominal d.symbol) (hne : d.symbol ≠ owner)
    (ht : (Build.declaredTypeOf d.symbol).value q = some t)
    (hext : ((Build.declaredTypeOf d.symbol).after q).ExtendsDirectly t owner) :
    OwnFixed (Program.ofSource src) moving fixed false d.symbol := by
  obtain ⟨q₁, hq₁, hheirs⟩ := h
  obtain ⟨q₂, hrun, hheir⟩ :=
    hheirs d (hintro.asked (Program.Asked.allLinked_ofSource hs .refl) hq₁) hne
  obtain ⟨hvalue, hupholds, hknows⟩ := @Program.extendedAt_of_runAt src q₂ q final d.symbol t false
    hs hnominal (hrun.widen hq₁ .refl) hq ht
  exact hheir t hvalue (hupholds.extendsDirectly hknows hext)

end

end Allocator
end Moniker
