/-
# New names of members

What a plan promises about members.

* Hard-private members of one class stay apart (`hardPrivatesApart_planMangle`).
  Classes inside each other share their names: the pool of a class knows nothing
  of the classes around it.
* A member of a class or interface that overrides another is not renamed, so it still
  overrides it just as long as the other keeps its name too
  (`overridesSurvive_planMangle`).  Nothing makes the other keep it: a method of a base
  class gets a new name beside one that overrides it (`finalName_ne_overridden`).
* The new name of a member is not that of a rival that keeps its own
  (`noAccidentalOverride_planMangle`).  Rivals are the members of the owner, of all
  that its instances inherit from, and of what extends the owner directly, but not
  of what extends that.

What extends what is read off the answers that are given once the plan is there.  The
plan was made by earlier ones, which said the same (`extendedAt_of_runAt`).
-/

import Moniker.Proofs.Lineage
import Moniker.Proofs.Plans
import Moniker.Proofs.Stages

namespace Moniker

open Program (Asked)
open Allocator (ownMembers)

namespace Program

variable {p : Program} {s b owner : SymbolId}

/-- The class declares the hard-private member. -/
structure DeclaresHardPrivate (p : Program) (cls s : SymbolId) : Prop where
  owner : (p.symbol s).owner = some cls
  mem : s ∈ ownMembers p true cls

/-- Hard-private members of one class that had different names still have. -/
def HardPrivatesApart (p : Program) (plan : ManglePlan) : Prop :=
  ∀ cls s s', p.DeclaresHardPrivate cls s → p.DeclaresHardPrivate cls s' →
    (p.symbol s').name ≠ (p.symbol s).name → plan.finalName p s' ≠ plan.finalName p s

/-- The member overrides `b`, by the answers of `q`: something that its side of the owner
inherits from has `b` under its name. -/
def Overrides (p q : Program) (s owner b : SymbolId) : Prop :=
  let side := sideOf owner ((p.symbol s).has .static)
  ∃ t u own, side.value q = some t ∧ (side.after q).Inherits t u ∧
    ((side.after q).typeInfo u).members = some own ∧
    (p.table own).find? (p.symbol s).name = some b

/-- What counts as overriding is looked for on the side of the member. -/
theorem value_overrides : Build.value (classifier.overrides s owner) p =
    let side := sideOf owner ((p.symbol s).has .static)
    (side.value p).any fun t => ((side.after p).typeInfo t).bases.any fun b =>
      ((side.after p).property? b (p.symbol s).name).isSome := by
  unfold Classifier.overrides
  have hsym : (classifier.symbol p s).has .static = (p.symbol s).has .static := rfl
  rw [Build.value_bind, Build.value_get, Build.after_get]
  dsimp only
  rw [hsym]
  cases (p.symbol s).has .static with
  | true => rfl
  | false => rfl

/-- Nothing else is asked for it. -/
theorem after_overrides : Build.after (classifier.overrides s owner) p =
    (sideOf owner ((p.symbol s).has .static)).after p := by
  unfold Classifier.overrides
  have hsym : (classifier.symbol p s).has .static = (p.symbol s).has .static := rfl
  rw [Build.after_bind, Build.value_get, Build.after_get]
  dsimp only
  rw [hsym]
  cases (p.symbol s).has .static with
  | true => rfl
  | false => rfl

/-- **A member that is found to override another was seen to,** whenever it was looked for. -/
theorem Overrides.value_eq_true {src : Source} {final q q₀ : Program} (hs : src.LaidOut)
    (hrun : Build.RunAt (classifier.overrides s owner) (ofSource src) final q₀)
    (hq : Asked final q) (hmember : ((ofSource src).symbol s).owner = some owner)
    (howner : (ofSource src).IsNominal owner) (h : (ofSource src).Overrides q s owner b) :
    Build.value (classifier.overrides s owner) q₀ = true := by
  have hlt := idx_lt_of_owner hmember
  have hlinked : Typing.AllLinked (ofSource src).source (ofSource src) :=
    Asked.allLinked_ofSource hs .refl
  have htraits := ((hrun.before.rested hlinked).answers trivial).traits s hlt
  have hname := (hrun.later.symbol_kept hlt).name
  have hstatic : (q₀.symbol s).has .static = ((ofSource src).symbol s).has .static := by
    rw [Symbol.has, Symbol.has, htraits]
  obtain ⟨t, u, own, ht, hinherits, hmembers, hfind⟩ := h
  have hside : (sideOf owner (((ofSource src).symbol s).has .static)).RunAt (ofSource src) final q₀ :=
    ⟨hrun.before, hstatic ▸ after_overrides (p := q₀) ▸ hrun.after⟩
  obtain ⟨hvalue, hupholds, hknows⟩ := extendedAt_of_runAt hs howner hside hq ht
  obtain ⟨hinherited, hu⟩ := hupholds.inherits hknows hinherits
  rw [value_overrides, hstatic, hname]
  dsimp only
  rw [hvalue]
  refine any_bases_property? hinherited ?_
  have hafter : Asked (ofSource src)
      ((sideOf owner (((ofSource src).symbol s).has .static)).after q₀) :=
    hside.before.trans (sideOf_inquires owner _ q₀)
  have htable := hafter.table_eq hs (MemberTable.mem_entries_of_find? hfind)
  rw [ownProperty?, hinherited.kind_eq, (hupholds.kept u hu).members_eq.symm.trans hmembers]
  simp only [Option.bind_some, htable, hfind, Option.isSome_some]

/-- A member of a class or interface that overrides another keeps its name, so the two have one
name just as long as the other keeps its name as well. -/
def OverridesSurvive (p : Program) (plan : ManglePlan) (q : Program) : Prop :=
  ∀ s owner b, (p.symbol s).owner = some owner → p.IsNominal owner →
    (p.symbol s).has .hardPrivate = false → p.Overrides q s owner b →
      ¬ plan.Renames s ∧ ((p.symbol b).name = (p.symbol s).name →
        (plan.finalName p b = plan.finalName p s ↔ plan.finalName p b = (p.symbol b).name))

/-- The new name of a member of the owner is not the name that a rival keeps, whatever extends
what by the answers of `q`. -/
structure NoAccidentalOverride (p : Program) (plan : ManglePlan) (q : Program)
    (owner : SymbolId) (target : String) : Prop where
  /-- Members of the owner, on either side. -/
  own : ∀ s ∈ ownMembers p false owner, ¬ plan.Renames s → (p.symbol s).name ≠ target
  /-- Members of what the instances of the owner inherit from. -/
  inherited : p.IsNominal owner → ∀ t u table, (Build.declaredTypeOf owner).value q = some t →
    ((Build.declaredTypeOf owner).after q).Inherits t u →
    (((Build.declaredTypeOf owner).after q).typeInfo u).members = some table →
    ∀ s ∈ (p.table table).symbols, ¬ plan.Renames s → (p.symbol s).name ≠ target
  /-- Members, on either side, of the classes and interfaces that extend the owner
  directly. -/
  heirs : ∀ d, p.IntroducesType d → p.IsNominal d.symbol →
    ∀ t, (Build.declaredTypeOf d.symbol).value q = some t →
      ((Build.declaredTypeOf d.symbol).after q).ExtendsDirectly t owner →
      ∀ s ∈ ownMembers p false d.symbol, ¬ plan.Renames s → (p.symbol s).name ≠ target

end Program

namespace ManglePlan

variable {p : Program} {files : List FileId} {opts : MangleOptions} {s s' owner cls : SymbolId}
  {r : Renaming} {plan : ManglePlan}

/-- A name that is given out is not that of a symbol whose name is fixed. -/
theorem name_ne_of_fixed {fixed : List String} {target : String} (htarget : target ∉ fixed)
    (hne : target ≠ "") (hfixed : s.idx < p.symbols.size → (p.symbol s).name ∈ fixed) :
    (p.symbol s).name ≠ target := by
  rintro rfl
  rcases Nat.lt_or_ge s.idx p.symbols.size with hlt | hge
  · exact htarget (hfixed hlt)
  · -- A symbol that is not there has no name.
    exact hne (by rw [Program.symbol, getD_of_size_le hge]; rfl)

/-- Nor is it one that members of an owner keep. -/
theorem name_ne_of_ownFixed {moving : KeySet SymbolId} {fixed : List String} {hard : Bool}
    {target : String} (hfixed : Allocator.OwnFixed p moving fixed hard owner)
    (htarget : target ∉ fixed) (hne : target ≠ "") (hmoved : ∀ s ∈ moving, plan.Renames s)
    (hs : s ∈ ownMembers p hard owner) (hstays : ¬ plan.Renames s) :
    (p.symbol s).name ≠ target :=
  name_ne_of_fixed htarget hne fun hlt => hfixed s hs hlt fun hm => hstays (hmoved s hm)

theorem hardPrivatesApart (hw : WellScoped p) (hs : p.source.LaidOut)
    (hsel : ∀ f ∈ files, f ∈ p.source.fileIds) :
    p.HardPrivatesApart ((planMangle files opts).value p) := by
  obtain ⟨⟨a, hsettled⟩, _⟩ := settled_planMangle opts hw hs hsel
  generalize hplan : (planMangle files opts).value p = plan at hsettled ⊢
  have hdomain : ∀ {cls}, ∀ r ∈ plan.renamings, p.DeclaresHardPrivate cls r.symbol →
      r.domain = .hardPrivate cls := by
    intro cls r hr hdeclares
    subst hplan
    have hhard := (List.mem_filter.mp hdeclares.mem).2
    rw [domain_of_renames hw hs hsel hr hdeclares.owner, if_pos (by simpa using hhard)]
  -- A new name is not one that another hard-private member of the class keeps.
  have hkept : ∀ {cls s s'}, p.DeclaresHardPrivate cls s → p.DeclaresHardPrivate cls s' →
      plan.Renames s → ¬ plan.Renames s' → plan.finalName p s' ≠ plan.finalName p s := by
    intro cls s s' hs hs' hmoves hstays
    obtain ⟨r, hr, rfl, htarget⟩ := exists_target_eq_finalName (p := p) hmoves
    obtain ⟨fixed, hfixed, hfree⟩ := hsettled.sound.apart r hr
    obtain ⟨_, _, hspent⟩ := hsettled.sound.spent r hr
    rw [hdomain r hr hs] at hfixed
    rw [finalName_of_not_renames hstays, ← htarget]
    exact name_ne_of_ownFixed hfixed hfree hspent.ne_empty hsettled.moved hs'.mem hstays
  intro cls s s' hs hs' hne
  by_cases hmoves : plan.Renames s <;> by_cases hmoves' : plan.Renames s'
  · obtain ⟨r, hr, rfl, htarget⟩ := exists_target_eq_finalName (p := p) hmoves
    obtain ⟨r', hr', rfl, htarget'⟩ := exists_target_eq_finalName (p := p) hmoves'
    rw [← htarget, ← htarget']
    refine hsettled.sound.target_ne hr' hr ?_ fun heq => hne (by rw [heq])
    rw [hdomain r hr hs, hdomain r' hr' hs']
  · exact hkept hs hs' hmoves hmoves'
  · exact (hkept hs' hs hmoves' hmoves).symm
  · rwa [finalName_of_not_renames hmoves, finalName_of_not_renames hmoves']

section

variable {src : Source} {q : Program} (hs : src.LaidOut)
  (hsel : ∀ f ∈ files, f ∈ (Program.ofSource src).source.fileIds)
  (hq : Program.Asked ((planMangle files opts).after (Program.ofSource src)) q)
include hs hsel hq

theorem overridesSurvive : (Program.ofSource src).OverridesSurvive
    ((planMangle files opts).value (Program.ofSource src)) q := by
  have hlaid : (Program.ofSource src).source.LaidOut := by rwa [Program.source_ofSource hs]
  intro s owner b hmember howner hsoft hoverrides
  have hstays : ¬ ((planMangle files opts).value (Program.ofSource src)).Renames s := by
    intro hmoves
    obtain ⟨q₀, hrun, hnone⟩ := exists_overrides_eq_false (Program.wellScoped_ofSource hs) hlaid
      hsel hmoves hmember hsoft
    rw [hoverrides.value_eq_true hs hrun hq hmember howner] at hnone
    exact absurd hnone (by decide)
  exact ⟨hstays, fun hname => by rw [finalName_of_not_renames hstays, hname]⟩

theorem noAccidentalOverride
    (hr : r ∈ ((planMangle files opts).value (Program.ofSource src)).renamings)
    (hd : r.domain = .members owner) :
    (Program.ofSource src).NoAccidentalOverride
      ((planMangle files opts).value (Program.ofSource src)) q owner r.target := by
  have hlaid : (Program.ofSource src).source.LaidOut := by rwa [Program.source_ofSource hs]
  obtain ⟨⟨a, hsettled⟩, _⟩ := settled_planMangle opts (Program.wellScoped_ofSource hs) hlaid hsel
  generalize (planMangle files opts).value (Program.ofSource src) = plan at hr hsettled ⊢
  obtain ⟨fixed, hfixed, hfree⟩ := hsettled.sound.apart r hr
  obtain ⟨_, _, hspent⟩ := hsettled.sound.spent r hr
  have hname {owner : SymbolId}
      (hfixed : Allocator.OwnFixed (Program.ofSource src) a.moving fixed false owner) :
      ∀ s ∈ ownMembers (Program.ofSource src) false owner, ¬ plan.Renames s →
        ((Program.ofSource src).symbol s).name ≠ r.target :=
    fun _ => name_ne_of_ownFixed hfixed hfree hspent.ne_empty hsettled.moved
  rw [hd] at hfixed
  obtain ⟨hown, hinherited, hheirs⟩ := hfixed
  refine ⟨hname hown, fun howner t u own ht hu hmembers s hmem hstays => ?_,
    fun d hintro hnominal t ht hext => ?_⟩
  · refine name_ne_of_fixed hfree hspent.ne_empty fun hlt => ?_
    exact hinherited.name_mem hs hq howner ht hu hmembers hmem hlt
      fun hm => hstays (hsettled.moved s hm)
  · by_cases hself : d.symbol = owner
    · exact hself ▸ hname hown
    · exact hname (hheirs.ownFixed hs hq hintro hnominal hself ht hext)

end

end ManglePlan

section

variable {files : List ParsedFile} {p : Program} {sel : List FileId}

/-- **Hard-private members of a class stay apart.** -/
theorem hardPrivatesApart_planMangle (h : Program.build files = .ok p)
    (hsel : ∀ f ∈ sel, f ∈ p.source.fileIds) (opts : MangleOptions) :
    p.HardPrivatesApart ((planMangle sel opts).value p) := by
  obtain ⟨src, rfl, hs⟩ := Program.laidOut_of_build h
  have hsource := Program.source_ofSource hs
  exact ManglePlan.hardPrivatesApart (Program.wellScoped_ofSource hs) (hsource.symm ▸ hs) hsel

/-- A class with two hard-private members. -/
def twoSecrets : ParsedFile where
  path := "main.ts"
  contents := "class Box \x7b #num; #sum \x7d".toUTF8
  tree :=
    .node "program" "" true 0 24 [
      .node "class_declaration" "" true 0 24 [
        .node "type_identifier" "name" true 6 9 [],
        .node "class_body" "body" true 10 24 [
          .node "public_field_definition" "" true 12 16 [
            .node "private_property_identifier" "name" true 12 16 []],
          .node "public_field_definition" "" true 18 22 [
            .node "private_property_identifier" "name" true 18 22 []]]]]

theorem hardPrivatesApart_planMangle_twoSecrets : ∃ p, Program.build [twoSecrets] = .ok p ∧
    p.HardPrivatesApart ((planMangle [⟨0⟩] {}).value p) := by
  have hbuild := Program.build_singleton twoSecrets
  refine ⟨_, hbuild, hardPrivatesApart_planMangle hbuild (fun f hf => ?_) {}⟩
  rw [Program.fileIds_of_build hbuild, List.mem_singleton.mp hf]
  decide

/-- **A member that overrides another keeps its name,** whatever answers show that it does. -/
theorem overridesSurvive_planMangle (h : Program.build files = .ok p)
    (hsel : ∀ f ∈ sel, f ∈ p.source.fileIds) (opts : MangleOptions) {q : Program}
    (hq : Asked ((planMangle sel opts).after p) q) :
    p.OverridesSurvive ((planMangle sel opts).value p) q := by
  obtain ⟨src, rfl, hs⟩ := Program.laidOut_of_build h
  exact ManglePlan.overridesSurvive hs hsel hq

/-- A class with a member that overrides one of its base. -/
def overridden : ParsedFile where
  path := "main.ts"
  contents := "class Base { run() {} } class Derived extends Base { run() {} }".toUTF8
  tree :=
    .node "program" "" true 0 63 [
      .node "class_declaration" "" true 0 23 [
        .node "type_identifier" "name" true 6 10 [],
        .node "class_body" "body" true 11 23 [
          .node "method_definition" "" true 13 21 [
            .node "property_identifier" "name" true 13 16 [],
            .node "formal_parameters" "parameters" true 16 18 [],
            .node "statement_block" "body" true 19 21 []]]],
      .node "class_declaration" "" true 24 63 [
        .node "type_identifier" "name" true 30 37 [],
        .node "class_heritage" "" true 38 50 [
          .node "extends_clause" "" true 38 50 [.node "identifier" "value" true 46 50 []]],
        .node "class_body" "body" true 51 63 [
          .node "method_definition" "" true 53 61 [
            .node "property_identifier" "name" true 53 56 [],
            .node "formal_parameters" "parameters" true 56 58 [],
            .node "statement_block" "body" true 59 61 []]]]]

theorem overridesSurvive_planMangle_overridden : ∃ p, Program.build [overridden] = .ok p ∧
    p.OverridesSurvive ((planMangle [⟨0⟩] {}).value p) ((planMangle [⟨0⟩] {}).after p) := by
  have hbuild := Program.build_singleton overridden
  refine ⟨_, hbuild, overridesSurvive_planMangle hbuild (fun f hf => ?_) {} .refl⟩
  rw [Program.fileIds_of_build hbuild, List.mem_singleton.mp hf]
  decide

/-- The program of that file. -/
def overriding : Program :=
  .ofSource (({} : Source).add overridden.path overridden.contents overridden.tree)

/-- The plan for it, with what has been asked then. -/
def planOverriding : ManglePlan × Program :=
  (do ManglePlan.ofAnalysis {} (← Program.classifier.analyzeWith {} [] [⟨0⟩]) :
    Build ManglePlan).run overriding

/-- The file exports nothing and does nothing, so nothing in it is public. -/
theorem planMangle_overriding : (planMangle [⟨0⟩] {}).run overriding = planOverriding := by
  refine ManglePlan.planMangle_of_quiet fun phase hphase => ?_
  have hquiet : (Program.checker.phases [⟨0⟩] {}).all fun phase => (phase overriding).isEmpty := by
    decide +kernel
  exact List.isEmpty_iff.mp (List.all_eq_true.mp hquiet phase hphase)

/-- The member that overrides keeps its name, and the one that it overrides gets another. -/
theorem finalName_ne_overridden : ∃ p, Program.build [overridden] = .ok p ∧
    ∃ s owner b, (p.symbol s).owner = some owner ∧ p.IsNominal owner ∧
      p.Overrides ((planMangle [⟨0⟩] {}).after p) s owner b ∧
      (p.symbol b).has .static = (p.symbol s).has .static ∧
      (p.symbol b).name = (p.symbol s).name ∧
      ((planMangle [⟨0⟩] {}).value p).finalName p b ≠
        ((planMangle [⟨0⟩] {}).value p).finalName p s := by
  have hdeclared : (overriding.symbol ⟨4⟩).owner = some ⟨3⟩ ∧
      ((overriding.symbol ⟨3⟩).has .classDecl ||
        (overriding.symbol ⟨3⟩).has .interfaceDecl) = true ∧
      ((overriding.symbol ⟨3⟩).has .importBinding ||
        (overriding.symbol ⟨3⟩).has .exportAlias) = false ∧
      (overriding.symbol ⟨2⟩).has .static = (overriding.symbol ⟨4⟩).has .static ∧
      (overriding.symbol ⟨2⟩).name = (overriding.symbol ⟨4⟩).name := by
    decide +kernel
  have hplanned :
      let side := Program.sideOf ⟨3⟩ ((overriding.symbol ⟨4⟩).has .static)
      let q := side.after planOverriding.2
      side.value planOverriding.2 = some ⟨4⟩ ∧ ⟨2⟩ ∈ (q.typeInfo ⟨4⟩).bases ∧
      (q.typeInfo ⟨2⟩).kind = .object ∧ (q.typeInfo ⟨2⟩).members = some ⟨0⟩ ∧
      (overriding.table ⟨0⟩).find? (overriding.symbol ⟨4⟩).name = some ⟨2⟩ ∧
      planOverriding.1.finalName overriding ⟨2⟩ ≠ planOverriding.1.finalName overriding ⟨4⟩ := by
    decide +kernel
  obtain ⟨howner, htrait, halias, hstatic, hname⟩ := hdeclared
  obtain ⟨hvalue, hbase, hkind, hmembers, hfind, hne⟩ := hplanned
  refine ⟨overriding, Program.build_singleton overridden, ⟨4⟩, ⟨3⟩, ⟨2⟩, howner, ⟨htrait, halias⟩,
    ?_, hstatic, hname, ?_⟩
  · rw [Build.after, planMangle_overriding]
    exact ⟨⟨4⟩, ⟨2⟩, ⟨0⟩, hvalue, .single ⟨hbase, hkind⟩, hmembers, hfind⟩
  · rwa [Build.value, planMangle_overriding]

/-- **A new name of a member is not one that a rival keeps,** whatever answers show who the
rivals are. -/
theorem noAccidentalOverride_planMangle (h : Program.build files = .ok p)
    (hsel : ∀ f ∈ sel, f ∈ p.source.fileIds) (opts : MangleOptions) {q : Program}
    (hq : Asked ((planMangle sel opts).after p) q) :
    let plan := (planMangle sel opts).value p
    ∀ r ∈ plan.renamings, ∀ owner, r.domain = .members owner →
      p.NoAccidentalOverride plan q owner r.target := by
  obtain ⟨src, rfl, hs⟩ := Program.laidOut_of_build h
  exact fun r hr owner hd => ManglePlan.noAccidentalOverride hs hsel hq hr hd

theorem noAccidentalOverride_planMangle_overridden :
    ∃ p, Program.build [overridden] = .ok p ∧
      let plan := (planMangle [⟨0⟩] {}).value p
      ∀ r ∈ plan.renamings, ∀ owner, r.domain = .members owner →
        p.NoAccidentalOverride plan ((planMangle [⟨0⟩] {}).after p) owner r.target := by
  have hbuild := Program.build_singleton overridden
  refine ⟨_, hbuild, noAccidentalOverride_planMangle hbuild (fun f hf => ?_) {} .refl⟩
  rw [Program.fileIds_of_build hbuild, List.mem_singleton.mp hf]
  decide

end

end Moniker
