/-
# Where aliases lead

An alias stands for another symbol, which may be an alias again.  `AliasChain p n s t` says that
`n` steps from `s` lead to `t`.  Who follows an alias comes to the end of its chain if that is near
enough, and to nothing if the chain leaves the program or goes round in a circle
(`FollowsAliases`).

Each step is remembered, on symbols that many chains may share.  It is remembered as it is, and
where a symbol leads in one step depends on declarations alone (`Typing.Settled`), so it does not
matter what has been asked before.
-/

import Moniker.Proofs.Termination.Programs

namespace Moniker
namespace Program

open Relation (ReflTransGen TransGen)
open Typing (Scene Settled)

variable {p q : Program} {s t u : SymbolId} {n : Nat}

/-- The symbol is an alias, and one step from it leads to the other. -/
def AliasStep (p : Program) (s t : SymbolId) : Prop :=
  (p.symbol s).isAlias = true ∧ p.aliasStep? (p.symbol s) = some t

/-- So many steps from the first symbol lead to the second. -/
inductive AliasChain (p : Program) : Nat → SymbolId → SymbolId → Prop where
  | nil (s : SymbolId) : AliasChain p 0 s s
  | cons {n : Nat} {s t u : SymbolId} :
    p.AliasStep s t → AliasChain p n t u → AliasChain p (n + 1) s u

/-- **What becomes of aliases that are followed.** -/
structure FollowsAliases (p : Program) : Prop where
  /-- What is found is no alias, and it is the end of the chain. -/
  ends_iff : ∀ s t, (Build.resolveAlias s).value p = some t ↔
    (p.symbol t).isAlias = false ∧ ∃ n < maxAliasSteps, p.AliasChain n s t
  /-- Nothing is found where an alias leads out of the program. -/
  leaves : ∀ s t, ReflTransGen p.AliasStep s t → (p.symbol t).isAlias = true →
    p.aliasStep? (p.symbol t) = none → (Build.resolveAlias s).value p = none
  /-- Nothing is found where an alias leads back to itself. -/
  circles : ∀ s t, ReflTransGen p.AliasStep s t → TransGen p.AliasStep t t →
    (Build.resolveAlias s).value p = none
  /-- Whatever is asked, the answer stays the same. -/
  asked : ∀ q s, Asked p q → (Build.resolveAlias s).value q = (Build.resolveAlias s).value p
  /-- What has been found stands for itself. -/
  again : ∀ s t, (Build.resolveAlias s).value p = some t →
    (Build.resolveAlias t).value ((Build.resolveAlias s).after p) = some t

/-! ### Chains -/

theorem AliasStep.rightUnique : Relator.RightUnique p.AliasStep :=
  fun _ _ _ ht hu => Option.some.inj (ht.2.symm.trans hu.2)

theorem aliasStep_iff : p.AliasStep s t ↔ p.aliasEdge s = some (some t) := by
  unfold AliasStep aliasEdge
  split <;> simp_all

theorem isAlias_eq_false_iff : (p.symbol s).isAlias = false ↔ p.aliasEdge s = none := by
  unfold aliasEdge
  split <;> simp_all

theorem AliasChain.reaches (h : p.AliasChain n s t) : ReflTransGen p.AliasStep s t := by
  induction h with
  | nil => exact .refl
  | cons hstep _ ih => exact .head hstep ih

theorem AliasChain.congr (h : p.AliasChain n s t) (hpq : p.aliasEdge = q.aliasEdge) :
    q.AliasChain n s t := by
  induction h with
  | nil s => exact .nil s
  | cons hstep _ ih =>
    rw [aliasStep_iff, hpq, ← aliasStep_iff] at hstep
    exact .cons hstep ih

/-- From wherever a chain passes its end is reached. -/
theorem reaches_end (hst : ReflTransGen p.AliasStep s t) (hsu : ReflTransGen p.AliasStep s u)
    (hu : (p.symbol u).isAlias = false) : ReflTransGen p.AliasStep t u := by
  rcases ReflTransGen.total_of_right_unique AliasStep.rightUnique hst hsu with htu | hut
  · exact htu
  · rcases ReflTransGen.cases_head hut with rfl | ⟨v, hstep, -⟩
    · exact .refl
    · exact nomatch hu.symm.trans hstep.1

/-- Who goes round in a circle stays in it. -/
theorem circle_of_reaches (hcircle : TransGen p.AliasStep t t) (htu : ReflTransGen p.AliasStep t u) :
    TransGen p.AliasStep u u := by
  induction htu with
  | refl => exact hcircle
  | tail _ hstep ih =>
    obtain ⟨w, hw, hback⟩ := TransGen.head'_iff.mp ih
    obtain rfl := AliasStep.rightUnique hw hstep
    exact .tail' hback hstep

/-! ### Following them -/

/-- All that is remembered of an alias is where it leads. -/
theorem nextOf_of_settled {c : Scene} (h : Settled c p) (s : SymbolId) :
    p.nextOf s = p.aliasStep? (p.symbol s) := by
  unfold nextOf
  cases htarget : (p.symbol s).target with
  | none => rfl
  | some next? => exact h.targets s next? htarget

/-- The end is found within a number of steps if it is nearer than that. -/
theorem aliasEndWithin_eq_some_iff {c : Scene} (h : Settled c p) (fuel : Nat) (s : SymbolId) :
    p.aliasEndWithin fuel s = some t ↔
      (p.symbol t).isAlias = false ∧ ∃ n < fuel, p.AliasChain n s t := by
  induction fuel generalizing s with
  | zero =>
    constructor
    · exact fun hnone => absurd hnone.symm (Option.some_ne_none t)
    · rintro ⟨-, n, hn, -⟩
      exact absurd hn (Nat.not_lt_zero n)
  | succ fuel ih =>
    unfold aliasEndWithin
    cases halias : (p.symbol s).isAlias with
    | false =>
      rw [if_neg Bool.false_ne_true, Option.some_inj]
      constructor
      · rintro rfl
        exact ⟨halias, 0, Nat.succ_pos fuel, .nil s⟩
      · rintro ⟨-, n, -, hchain⟩
        cases hchain with
        | nil => rfl
        | cons hstep => exact absurd (halias.symm.trans hstep.1) Bool.false_ne_true
    | true =>
      rw [if_pos rfl, nextOf_of_settled h, Option.bind_eq_some_iff]
      constructor
      · rintro ⟨next, hnext, hend⟩
        obtain ⟨ht, n, hn, hchain⟩ := (ih next).mp hend
        exact ⟨ht, n + 1, Nat.succ_lt_succ hn, .cons ⟨halias, hnext⟩ hchain⟩
      · rintro ⟨ht, n, hn, hchain⟩
        cases hchain with
        | nil => exact absurd (ht.symm.trans halias) Bool.false_ne_true
        | @cons n _ next _ hstep hrest =>
          exact ⟨next, hstep.2, (ih next).mpr ⟨ht, n, Nat.lt_of_succ_lt_succ hn, hrest⟩⟩

theorem resolveAlias_eq_some_iff {c : Scene} (h : Settled c p) (s t : SymbolId) :
    (Build.resolveAlias s).value p = some t ↔
      (p.symbol t).isAlias = false ∧ ∃ n < maxAliasSteps, p.AliasChain n s t := by
  obtain ⟨q, -, hrun⟩ := Build.resolveAlias_run s p
  rw [Build.value, hrun]
  exact aliasEndWithin_eq_some_iff h maxAliasSteps s

/-- Aliases that lead the same way end at the same symbols. -/
theorem resolveAlias_congr {c : Scene} (hp : Settled c p) (hq : Settled c q) (s : SymbolId) :
    (Build.resolveAlias s).value q = (Build.resolveAlias s).value p := by
  have hedge : q.aliasEdge = p.aliasEdge :=
    funext fun s => (hq.aliasEdge s).trans (hp.aliasEdge s).symm
  refine Option.ext fun t => ?_
  rw [resolveAlias_eq_some_iff hq, resolveAlias_eq_some_iff hp, isAlias_eq_false_iff, hedge,
    ← isAlias_eq_false_iff]
  exact and_congr_right fun _ => exists_congr fun n => and_congr_right fun _ =>
    ⟨fun h => h.congr hedge, fun h => h.congr hedge.symm⟩

/-- **Whatever has been asked of a program, an alias is followed to the end of its chain,** if that
is near enough, and to nothing if there is no end. -/
theorem followsAliases_of_build {files : List ParsedFile} (h : build files = .ok p)
    (hq : Asked p q) : q.FollowsAliases := by
  obtain ⟨src, rfl, hs⟩ := laidOut_of_build h
  have hsettled {r : Program} (hr : Asked (ofSource src) r) : Settled (scene src) r :=
    (hr.sound hs).toSettled
  have hends := resolveAlias_eq_some_iff (hsettled hq)
  have hasked (r : Program) (s : SymbolId) (hr : Asked q r) :
      (Build.resolveAlias s).value r = (Build.resolveAlias s).value q :=
    resolveAlias_congr (hsettled hq) (hsettled (hq.trans hr)) s
  -- A chain that comes by some symbol goes on from there to its end.
  have honward {s t u : SymbolId} (hst : ReflTransGen q.AliasStep s t)
      (hu : (Build.resolveAlias s).value q = some u) :
      (q.symbol u).isAlias = false ∧ ReflTransGen q.AliasStep t u := by
    obtain ⟨halias, n, -, hchain⟩ := (hends s u).mp hu
    exact ⟨halias, reaches_end hst hchain.reaches halias⟩
  refine ⟨hends, fun s t hst ht hnone => ?_, fun s t hst hcircle => ?_, hasked, fun s t hst => ?_⟩
  · refine Option.eq_none_iff_forall_ne_some.mpr fun u hu => ?_
    obtain ⟨halias, htu⟩ := honward hst hu
    rcases ReflTransGen.cases_head htu with rfl | ⟨v, hstep, -⟩
    · exact nomatch halias.symm.trans ht
    · exact nomatch hnone.symm.trans hstep.2
  · refine Option.eq_none_iff_forall_ne_some.mpr fun u hu => ?_
    obtain ⟨halias, htu⟩ := honward hst hu
    obtain ⟨v, hstep, -⟩ := TransGen.head'_iff.mp (circle_of_reaches hcircle htu)
    exact nomatch halias.symm.trans hstep.1
  · rw [hasked _ t (.single (.resolveAlias q s))]
    exact (hends t t).mpr ⟨((hends s t).mp hst).1, 0, by decide, .nil t⟩

/-- A module that passes on a name of its own. -/
def selfExporting : ParsedFile where
  path := "loop.ts"
  contents := "export { a } from './loop';".toUTF8
  tree :=
    .node "program" "" true 0 27 [
      .node "export_statement" "" true 0 27 [
        .node "export" "" false 0 6 [],
        .node "export_clause" "" true 7 12 [
          .node "export_specifier" "" true 9 10 [.node "identifier" "name" true 9 10 []]],
        .node "from" "" false 13 17 [],
        .node "string" "source" true 18 26 [.node "string_fragment" "" true 19 25 []]]]

theorem followsAliases_of_build_selfExporting :
    ∃ p q, build [selfExporting] = .ok p ∧ Asked p q ∧ q.FollowsAliases :=
  have hasked : ∀ p, Asked p ((Build.resolveAlias ⟨1⟩).after p) := fun p => .single (.resolveAlias p ⟨1⟩)
  ⟨_, _, build_singleton selfExporting, hasked _,
    followsAliases_of_build (build_singleton selfExporting) (hasked _)⟩

end Program
end Moniker
