/-
# Where searches end

A search that remembers what it has been to, or that goes from what came later to what came
before, ends by itself: no bound above the number of things there are matters.  So it is with
the searches outwards from a scope, along `export *`, for a property
(`propertyWithin_eq_property?`) and for whether a type is ambient, which goes from composites
to their parts (`isAmbientWithin_eq_isAmbientType`).

The search for a signature neither remembers nor counts.  It `Turns` from a type to the
first of those it leads to that have not all been searched in vain, and it goes on for ever
if and only if turning leads it into a circle (`searchSignature_eq_none_iff`).  A circle
of composites alone cannot be if parts come first, so there is a type parameter on it, one
whose constraint leads back to it (`searchSignature_eq_none_iff_param`).
-/

import Moniker.Proofs.Binding.WellScoped
import Moniker.Proofs.Hierarchy
import Moniker.Proofs.Namespaces
import Mathlib.Data.Fintype.EquivFin
import Mathlib.Order.WellFounded

namespace Moniker
namespace Program

open Relation (ReflTransGen TransGen)

variable {p : Program} {t u v : TypeId} {name : String} {seen : List TypeId}

/-! ### Scopes -/

theorem outwardWithin_eq (hw : WellScoped p) (fuel fuel' : Nat) (c : ScopeId)
    (h : min c.idx p.scopes.size < fuel) (h' : min c.idx p.scopes.size < fuel') :
    p.outwardWithin fuel c = p.outwardWithin fuel' c := by
  induction fuel generalizing fuel' c with
  | zero => exact absurd h (Nat.not_lt_zero _)
  | succ fuel ih =>
    cases fuel' with
    | zero => exact absurd h' (Nat.not_lt_zero _)
    | succ fuel' =>
      rw [outwardWithin, outwardWithin]
      split
      · rfl
      · next outer hparent =>
        obtain ⟨hlt, hin⟩ := hw.parent_lt hparent
        rw [ih fuel' outer (by omega) (by omega)]

theorem outwardWithin_eq_outward (hw : WellScoped p) {fuel : Nat} {c : ScopeId}
    (h : p.scopes.size < fuel) : p.outwardWithin fuel c = p.outward c :=
  outwardWithin_eq hw fuel _ c (by omega) (by omega)

/-! ### Exports -/

section Exports

variable {m : ModuleId} {met : List ModuleId} {fuel fuel' : Nat}

/-- Walks with different bounds go through a list alike if they do so from each module. -/
theorem walkAll_eq (hvisit : ∀ (m : ModuleId) (met : List ModuleId), p.unseen met < fuel →
      p.unseen met < fuel' → p.walk fuel m met = p.walk fuel' m met)
    (nexts : List ModuleId) (h : p.unseen met < fuel) (h' : p.unseen met < fuel') :
    walkAll (p.walk fuel) nexts met = walkAll (p.walk fuel') nexts met := by
  induction nexts generalizing met with
  | nil => rfl
  | cons next rest ih =>
    have hless : p.unseen (p.walk fuel next met).2 ≤ p.unseen met :=
      unseen_le fun a ha => ((followed_walk h).1.mem_iff a).mpr (.inl ha)
    rw [walkAll, walkAll, ← hvisit next met h h', ih (hless.trans_lt h) (hless.trans_lt h')]

/-- A module that is not in the program leads nowhere; any other takes up room. -/
theorem walkAll_passed_eq (hvisit : ∀ (m : ModuleId) (met : List ModuleId), p.unseen met < fuel →
      p.unseen met < fuel' → p.walk fuel m met = p.walk fuel' m met)
    (hnew : m ∉ met) (h : p.unseen met ≤ fuel) (h' : p.unseen met ≤ fuel') :
    walkAll (p.walk fuel) (p.passed m) (m :: met) = walkAll (p.walk fuel') (p.passed m) (m :: met) := by
  by_cases hin : m.idx < p.modules.size
  · have hless := unseen_cons_lt hin hnew
    exact walkAll_eq hvisit _ (hless.trans_le h) (hless.trans_le h')
  · have hnone : p.passed m = [] :=
      List.eq_nil_iff_forall_not_mem.mpr fun next h => hin (idx_lt_of_passesOn h)
    rw [hnone]
    rfl

theorem walk_eq (fuel fuel' : Nat) (m : ModuleId) (met : List ModuleId) (h : p.unseen met < fuel)
    (h' : p.unseen met < fuel') : p.walk fuel m met = p.walk fuel' m met := by
  induction fuel generalizing fuel' m met with
  | zero => exact absurd h (Nat.not_lt_zero _)
  | succ fuel ih =>
    cases fuel' with
    | zero => exact absurd h' (Nat.not_lt_zero _)
    | succ fuel' =>
      cases hmet : met.contains m with
      | true =>
        unfold walk
        rw [if_pos hmet, if_pos hmet]
      | false =>
        rw [walk_succ hmet, walk_succ hmet, walkAll_passed_eq (ih fuel') (by simpa using hmet)
          (Nat.le_of_lt_succ h) (Nat.le_of_lt_succ h')]

theorem unseen_nil_le : p.unseen [] ≤ p.modules.size :=
  (Finset.card_filter_le _ _).trans (Finset.card_range _).le

/-- A walk with steps enough meets what a walk from the module meets. -/
theorem walk_eq_met (h : p.modules.size < fuel) : (p.walk fuel m []).1 = p.met m := by
  rw [met, walk_eq fuel (p.modules.size + 1) m [] (unseen_nil_le.trans_lt h)
    (Nat.lt_succ_of_le unseen_nil_le)]

theorem exportWithin_eq_export? (h : p.modules.size < fuel) :
    (p.exportWithin name fuel m []).1 = p.export? m name := by
  by_cases hname : name = "default"
  · subst hname
    obtain ⟨room, rfl⟩ := Nat.exists_eq_add_one_of_ne_zero (Nat.ne_zero_of_lt h)
    rw [export?_default]
    unfold exportWithin
    rw [if_neg (by simp)]
    dsimp only
    cases (p.moduleInfo m).ownExport? "default" <;> rfl
  · rw [export?_eq hname, ← walk_eq_met h]
    exact (searched_exportWithin hname fuel m []).1

theorem exportsWithin_eq_exportsOf (h : p.modules.size < fuel) :
    (p.exportsWithin fuel m []).1 = p.exportsOf m := by
  rw [exportsWithin_eq, exportsOf_eq, walk_eq_met h]

theorem namespaceWithin_eq_namespaceTable (h : p.modules.size < fuel) :
    (p.namespaceWithin fuel m true ({}, [])).1 = p.namespaceTable m := by
  obtain ⟨room, rfl⟩ := Nat.exists_eq_add_one_of_ne_zero (Nat.ne_zero_of_lt h)
  have hcollects (room : Nat) := @namespaceWithin_succ p m [] room {} true (by simp)
    fun _ _ _ => namespaceWithin_eq _ _ _ _
  rw [namespaceTable, hcollects, hcollects, walkAll_passed_eq (walk_eq room p.modules.size)
    List.not_mem_nil (unseen_nil_le.trans (Nat.le_of_lt_succ h)) unseen_nil_le]

end Exports

/-! ### Properties -/

/-- Searches with different bounds go through a list alike if they do so from each type. -/
theorem foldl_propertyWithin_eq {fuel fuel' : Nat}
    (hvisit : ∀ (t : TypeId) {seen : List TypeId}, seen.Nodup →
      p.types.size < fuel + p.entered seen → p.types.size < fuel' + p.entered seen →
      p.Lack name seen → p.propertyWithin name fuel t seen = p.propertyWithin name fuel' t seen) :
    ∀ (ts : List TypeId) {seen : List TypeId}, seen.Nodup →
      ts = [] ∨ p.types.size < fuel + p.entered seen ∧ p.types.size < fuel' + p.entered seen →
      p.Lack name seen →
      ts.foldl (fun (found, seen) next =>
        match found with
        | some m => (some m, seen)
        | none => p.propertyWithin name fuel next seen) (none, seen) =
      ts.foldl (fun (found, seen) next =>
        match found with
        | some m => (some m, seen)
        | none => p.propertyWithin name fuel' next seen) (none, seen) := by
  intro ts
  induction ts with
  | nil => exact fun _ _ _ => rfl
  | cons t ts ih =>
    intro seen hnodup hfuel hlack
    obtain ⟨hfuel, hfuel'⟩ := hfuel.resolve_left (List.cons_ne_nil t ts)
    have hfirst := hvisit t hnodup hfuel hfuel' hlack
    rw [List.foldl_cons, List.foldl_cons]
    dsimp only
    rw [hfirst]
    obtain ⟨found, seen', hresult⟩ : ∃ found seen',
      p.propertyWithin name fuel' t seen = (found, seen') := ⟨_, _, rfl⟩
    rw [hresult]
    cases found with
    | some m => rw [foldl_found fun _ _ _ => rfl, foldl_found fun _ _ _ => rfl]
    | none =>
      -- Nothing was found, so the types entered lack the property as well.
      have hwalk := p.walks_propertyWithin fuel' t hnodup hfuel' hlack
      rw [hresult] at hwalk
      obtain ⟨hwalk, hlack'⟩ := hwalk rfl
      have hmono : p.entered seen ≤ p.entered seen' := p.entered_mono hnodup hwalk.kept
      exact ih (hwalk.nodup hnodup) (.inr ⟨by omega, by omega⟩) hlack'

/-- Bounds that are never met make no difference. -/
theorem propertyWithin_eq (fuel fuel' : Nat) : ∀ (t : TypeId) {seen : List TypeId}, seen.Nodup →
    p.types.size < fuel + p.entered seen → p.types.size < fuel' + p.entered seen →
    p.Lack name seen → p.propertyWithin name fuel t seen = p.propertyWithin name fuel' t seen := by
  induction fuel generalizing fuel' with
  | zero =>
    intro t seen hnodup hfuel
    have hle := p.entered_le hnodup
    omega
  | succ fuel ih =>
    intro t seen hnodup hfuel hfuel' hlack
    cases fuel' with
    | zero =>
      have hle := p.entered_le hnodup
      omega
    | succ fuel' =>
      unfold propertyWithin
      split
      · rfl
      · next hnew =>
        rw [List.contains_iff_mem] at hnew
        dsimp only
        split
        · rfl
        · next hown =>
          refine foldl_propertyWithin_eq (ih fuel') _ (List.nodup_cons.mpr ⟨hnew, hnodup⟩) ?_
            (List.forall_mem_cons.mpr ⟨hown, hlack⟩)
          -- A type that is not in the program leads nowhere; any other takes up room.
          rcases Nat.lt_or_ge t.idx p.types.size with hlt | hge
          · have hcons := p.entered_cons hlt seen
            exact .inr ⟨by omega, by omega⟩
          · exact .inl (propertyEdges_of_size_le hge)

/-- **The search for a property ends by itself,** not at its bound. -/
theorem propertyWithin_eq_property? {fuel : Nat} (h : p.types.size < fuel) :
    (p.propertyWithin name fuel t []).1 = p.property? t name := by
  rw [property?, propertyWithin_eq fuel (p.types.size + 1) t .nil (by omega) (by omega)
    fun _ ht => nomatch ht]

/-! ### Ambient types -/

/-- The parts of a union or intersection came before it. -/
def Layered (p : Program) : Prop :=
  ∀ t, p.isComposite t = true → ∀ u ∈ (p.typeInfo t).parts, u.idx < t.idx

theorem isComposite_iff : p.isComposite t = true ↔
    (p.typeInfo t).kind = .union ∨ (p.typeInfo t).kind = .intersection := by
  rw [isComposite, Bool.or_eq_true, beq_iff_eq, beq_iff_eq]

theorem idx_lt_of_isComposite (h : p.isComposite t = true) : t.idx < p.types.size := by
  refine idx_lt_of_kind_ne fun hkind => ?_
  rw [isComposite_iff, hkind] at h
  rcases h with h | h <;> cases h

theorem isAmbientWithin_eq (hp : p.Layered) (fuel fuel' : Nat) (t : TypeId)
    (h : 0 < fuel ∧ 0 < fuel') (ht : p.isComposite t = true → t.idx < fuel ∧ t.idx < fuel') :
    p.isAmbientWithin fuel t = p.isAmbientWithin fuel' t := by
  induction fuel generalizing fuel' t with
  | zero => exact absurd h.1 (lt_irrefl 0)
  | succ fuel ih =>
    cases fuel' with
    | zero => exact absurd h.2 (lt_irrefl 0)
    | succ fuel' =>
      unfold isAmbientWithin
      cases hcomposite : p.isComposite t with
      | false => simp only [Bool.false_and]
      | true =>
        obtain ⟨hlt, hlt'⟩ := ht hcomposite
        have hparts : ∀ u ∈ (p.typeInfo t).parts,
            p.isAmbientWithin fuel u = p.isAmbientWithin fuel' u := by
          intro u hu
          have hbefore := hp t hcomposite u hu
          exact ih fuel' u ⟨by omega, by omega⟩ fun _ => ⟨by omega, by omega⟩
        have hany : (p.typeInfo t).parts.any (p.isAmbientWithin fuel) =
            (p.typeInfo t).parts.any (p.isAmbientWithin fuel') := by
          rw [Bool.eq_iff_iff, List.any_eq_true, List.any_eq_true]
          exact exists_congr fun u => and_congr_right fun hu => by rw [hparts u hu]
        simp only [hany]

/-- **Whether a type is ambient is found out without meeting the bound,** if parts come first. -/
theorem isAmbientWithin_eq_isAmbientType (hp : p.Layered) {fuel : Nat} (h : p.types.size < fuel) :
    p.isAmbientWithin fuel t = p.isAmbientType t := by
  refine isAmbientWithin_eq hp fuel (p.types.size + 1) t ⟨by omega, by omega⟩ fun ht => ?_
  have hlt := idx_lt_of_isComposite ht
  exact ⟨by omega, by omega⟩

/-! ### Signatures -/

/-- The search for a signature may lead from one type to the other. -/
def Passes (p : Program) (t u : TypeId) : Prop :=
  (p.typeInfo t).signatures = [] ∧ u ∈ signatureEdges (p.typeInfo t)

/-- The search for a signature turns from one type to the other: it found nothing from the
types it turned to before. -/
def Turns (p : Program) (t u : TypeId) : Prop :=
  (p.typeInfo t).signatures = [] ∧ ∃ before after,
    signatureEdges (p.typeInfo t) = before ++ u :: after ∧
      ∀ v ∈ before, p.searchSignature v = some none

/-- The search for a signature may lead from the type back to it. -/
def Circles (p : Program) (t : TypeId) : Prop := TransGen p.Passes t t

theorem Turns.passes (h : p.Turns t u) : p.Passes t u := by
  obtain ⟨hnone, before, after, hedges, -⟩ := h
  exact ⟨hnone, by rw [hedges]; simp⟩

theorem Passes.idx_lt (h : p.Passes t u) : t.idx < p.types.size := by
  refine idx_lt_of_kind_ne fun hkind => ?_
  have hmem := h.2
  rw [signatureEdges, hkind] at hmem
  exact nomatch hmem

theorem searchSignature_of_nil (h : (p.typeInfo t).signatures = []) :
    p.searchSignature t = (signatureEdges (p.typeInfo t)).findSomeM? p.searchSignature := by
  rw [searchSignature, h]

section Lists

variable {α β : Type} {f g : α → Option (Option β)} {xs before after : List α} {x : α} {r : Option β}

theorem findSomeM?_cons : (x :: xs).findSomeM? f = (f x).bind fun
    | some b => some (some b)
    | none => xs.findSomeM? f := rfl

/-- A search through a list does not end if and only if it comes to something from where it
does not end. -/
theorem findSomeM?_eq_none_iff : xs.findSomeM? f = none ↔ ∃ before x after,
    xs = before ++ x :: after ∧ (∀ y ∈ before, f y = some none) ∧ f x = none := by
  induction xs with
  | nil =>
    refine ⟨fun h => absurd h (Option.some_ne_none _), ?_⟩
    rintro ⟨before, x, after, h, -⟩
    simp at h
  | cons x xs ih =>
    rw [findSomeM?_cons]
    constructor
    · intro h
      rcases hx : f x with _ | _ | b
      · exact ⟨[], x, xs, rfl, List.forall_mem_nil _, hx⟩
      · rw [hx] at h
        obtain ⟨before, y, after, rfl, hbefore, hy⟩ := ih.mp h
        exact ⟨x :: before, y, after, rfl, List.forall_mem_cons.mpr ⟨hx, hbefore⟩, hy⟩
      · rw [hx] at h
        exact nomatch h
    · rintro ⟨before, y, after, hxs, hbefore, hy⟩
      cases before with
      | nil =>
        obtain ⟨rfl, rfl⟩ := List.cons.inj hxs
        rw [hy]
        rfl
      | cons z before =>
        obtain ⟨rfl, rfl⟩ := List.cons.inj hxs
        obtain ⟨hx, hbefore⟩ := List.forall_mem_cons.mp hbefore
        rw [hx]
        exact ih.mpr ⟨before, y, after, rfl, hbefore, hy⟩

/-- A search that ends has the same result where each of its searches does. -/
theorem findSomeM?_eq_some (h : ∀ x r, f x = some r → g x = some r)
    (hf : xs.findSomeM? f = some r) : xs.findSomeM? g = some r := by
  induction xs with
  | nil => exact hf
  | cons x xs ih =>
    rw [findSomeM?_cons] at hf ⊢
    rcases hx : f x with _ | _ | b
    · rw [hx] at hf
      exact nomatch hf
    · rw [hx] at hf
      rw [h x none hx]
      exact ih hf
    · rw [hx] at hf
      rw [h x (some b) hx]
      exact hf

/-- A search that ends gets past what it finds nothing from. -/
theorem exists_of_findSomeM?_eq_some (hf : (before ++ x :: after).findSomeM? f = some r)
    (hbefore : ∀ y ∈ before, ∀ r, f y = some r → r = none) : ∃ r, f x = some r := by
  induction before with
  | nil =>
    rw [List.nil_append, findSomeM?_cons] at hf
    cases hx : f x with
    | none =>
      rw [hx] at hf
      exact nomatch hf
    | some r => exact ⟨r, rfl⟩
  | cons y before ih =>
    obtain ⟨hvain, hbefore⟩ := List.forall_mem_cons.mp hbefore
    rw [List.cons_append, findSomeM?_cons] at hf
    cases hy : f y with
    | none =>
      rw [hy] at hf
      exact nomatch hf
    | some r =>
      obtain rfl := hvain r hy
      rw [hy] at hf
      exact ih hf hbefore

/-- What a search through a list finds is found from something in the list. -/
theorem exists_of_findSomeM?_eq_some_some {b : β} (hf : xs.findSomeM? f = some (some b)) :
    ∃ x, f x = some (some b) := by
  induction xs with
  | nil => exact nomatch Option.some.inj hf
  | cons x xs ih =>
    rw [findSomeM?_cons] at hf
    rcases hx : f x with _ | _ | b'
    · rw [hx] at hf
      exact nomatch hf
    · rw [hx] at hf
      exact ih hf
    · rw [hx] at hf
      obtain rfl := Option.some.inj (Option.some.inj hf)
      exact ⟨x, hx⟩

end Lists

/-- A search does not end if and only if it turns to a type from where it does not end. -/
theorem searchSignature_eq_none_iff_turns :
    p.searchSignature t = none ↔ ∃ u, p.Turns t u ∧ p.searchSignature u = none := by
  constructor
  · intro h
    rcases hsignatures : (p.typeInfo t).signatures with _ | ⟨sig, rest⟩
    · rw [searchSignature_of_nil hsignatures, findSomeM?_eq_none_iff] at h
      obtain ⟨before, u, after, hedges, hbefore, hu⟩ := h
      exact ⟨u, ⟨hsignatures, before, after, hedges, hbefore⟩, hu⟩
    · rw [searchSignature, hsignatures] at h
      exact nomatch h
  · rintro ⟨u, ⟨hsignatures, before, after, hedges, hbefore⟩, hu⟩
    rw [searchSignature_of_nil hsignatures, findSomeM?_eq_none_iff]
    exact ⟨before, u, after, hedges, hbefore, hu⟩

/-- A search that ends turns only finitely often. -/
theorem acc_of_searchSignature {sig? : Option Signature} (h : p.searchSignature t = some sig?) :
    Acc (fun u t => p.Turns t u) t := by
  -- The induction is on the depth of the search; what an approximation finds is what it finds.
  refine (searchSignature.partial_correctness p
    (fun t r => p.searchSignature t = some r ∧ Acc (fun u t => p.Turns t u) t) ?_ t sig? h).2
  intro search ih t r hr
  have hsame : ∀ u r, search u = some r → p.searchSignature u = some r := fun u r hu => (ih u r hu).1
  rcases hsignatures : (p.typeInfo t).signatures with _ | ⟨sig, rest⟩
  · rw [hsignatures] at hr
    refine ⟨?_, .intro t fun u hturns => ?_⟩
    · rw [searchSignature_of_nil hsignatures]
      exact findSomeM?_eq_some hsame hr
    · obtain ⟨-, before, after, hedges, hbefore⟩ := hturns
      rw [hedges] at hr
      obtain ⟨r', hu⟩ := exists_of_findSomeM?_eq_some hr fun v hv r hr =>
        Option.some.inj ((hsame v r hr).symm.trans (hbefore v hv))
      exact (ih u r' hu).2
  · refine ⟨?_, .intro t fun u hturns => ?_⟩
    · rw [searchSignature, hsignatures]
      rw [hsignatures] at hr
      exact hr
    · have hnil := hturns.1
      rw [hsignatures] at hnil
      exact nomatch hnil

theorem searchSignature_ne_none_of_acc (h : Acc (fun u t => p.Turns t u) t) :
    p.searchSignature t ≠ none := by
  induction h with
  | intro t _ ih =>
    rw [Ne, searchSignature_eq_none_iff_turns]
    rintro ⟨u, hturns, hu⟩
    exact ih u hturns hu

theorem searchSignature_eq_none_of_circle (h : TransGen p.Turns t t) :
    p.searchSignature t = none := by
  have hirrefl : ∀ u, Acc (TransGen fun u t => p.Turns t u) u →
      ¬ TransGen (fun u t => p.Turns t u) u u := by
    intro u hu
    induction hu with
    | intro u _ ih => exact fun h => ih u h h
  by_contra hsome
  obtain ⟨sig?, hends⟩ := Option.ne_none_iff_exists'.mp hsome
  exact hirrefl t (acc_of_searchSignature hends).transGen (Relation.transGen_swap.mpr h)

/-- **The search for a signature does not end if and only if it turns into a circle.** -/
theorem searchSignature_eq_none_iff :
    p.searchSignature t = none ↔ ∃ u, ReflTransGen p.Turns t u ∧ TransGen p.Turns u u := by
  constructor
  · intro h
    have hacc : ¬ Acc (fun u t => p.Turns t u) t := fun hacc => searchSignature_ne_none_of_acc hacc h
    obtain ⟨f, rfl, hf⟩ := not_acc_iff_exists_descending_chain.mp hacc
    -- Among the types on the way one comes twice, for there are only finitely many.
    obtain ⟨i, j, heq, hne⟩ : ∃ i j, f i = f j ∧ i ≠ j := by
      let place (n : ℕ) : Fin p.types.size := ⟨(f n).idx, (hf n).passes.idx_lt⟩
      have hplace := not_injective_infinite_finite place
      rw [Function.not_injective_iff] at hplace
      obtain ⟨i, j, hsame, hne⟩ := hplace
      exact ⟨i, j, congrArg TypeId.mk (Fin.val_eq_of_eq hsame), hne⟩
    wlog hlt : i < j generalizing i j
    · exact this j i heq.symm hne.symm (by omega)
    have hreach : ReflTransGen p.Turns (f 0) (f i) :=
      Nat.rel_of_forall_rel_succ_of_le (ReflTransGen p.Turns) (fun n => .single (hf n)) (Nat.zero_le i)
    have hcircle : TransGen p.Turns (f i) (f j) :=
      Nat.rel_of_forall_rel_succ_of_lt (TransGen p.Turns) (fun n => .single (hf n)) hlt
    exact ⟨f i, hreach, by rwa [← heq] at hcircle⟩
  · rintro ⟨u, hreach, hcircle⟩
    have hu := searchSignature_eq_none_of_circle hcircle
    induction hreach using ReflTransGen.head_induction_on with
    | refl => exact hu
    | head hturns _ ih => exact searchSignature_eq_none_iff_turns.mpr ⟨_, hturns, ih⟩

/-- A search that does not end has led into a circle. -/
theorem exists_circles (h : p.searchSignature t = none) :
    ∃ u, ReflTransGen p.Passes t u ∧ p.Circles u := by
  obtain ⟨u, hreach, hcircle⟩ := searchSignature_eq_none_iff.mp h
  exact ⟨u, hreach.lift id fun _ _ => Turns.passes, hcircle.lift id fun _ _ => Turns.passes⟩

/-- A way along which a search passes goes down to earlier types, or it comes past a type
parameter. -/
theorem exists_param_or_lt {r : TypeId → TypeId → Prop} (hr : ∀ t u, r t u → p.Passes t u)
    (hp : p.Layered) (h : TransGen r t u) :
    (∃ v, (p.typeInfo v).kind = .param ∧ ReflTransGen r t v ∧ TransGen r v u) ∨ u.idx < t.idx := by
  have hstep {t u} (h : r t u) : (p.typeInfo t).kind = .param ∨ u.idx < t.idx := by
    have hmem := (hr t u h).2
    unfold signatureEdges at hmem
    split at hmem
    · next hkind => exact .inr (hp t (isComposite_iff.mpr (.inl hkind)) u hmem)
    · next hkind => exact .inr (hp t (isComposite_iff.mpr (.inr hkind)) u hmem)
    · next hkind => exact .inl hkind
    all_goals exact nomatch hmem
  induction h with
  | single h =>
    rcases hstep h with hparam | hlt
    · exact .inl ⟨t, hparam, .refl, .single h⟩
    · exact .inr hlt
  | tail hway h ih =>
    rcases ih with ⟨v, hparam, hto, hfrom⟩ | hlt
    · exact .inl ⟨v, hparam, hto, hfrom.tail h⟩
    · rcases hstep h with hparam | hlt'
      · exact .inl ⟨_, hparam, hway.to_reflTransGen, .single h⟩
      · exact .inr (hlt'.trans hlt)

/-- **A circle comes past a type parameter,** whose constraint leads back to it. -/
theorem Circles.exists_param (hp : p.Layered) (h : p.Circles t) :
    ∃ u, (p.typeInfo u).kind = .param ∧ p.Circles u := by
  obtain ⟨u, hparam, hto, hfrom⟩ :=
    (exists_param_or_lt (fun _ _ => id) hp h).resolve_right (lt_irrefl _)
  exact ⟨u, hparam, hfrom.trans_left hto⟩

/-- **The search for a signature has no end if and only if it turns to a type parameter from
which it turns back to it.** -/
theorem searchSignature_eq_none_iff_param (hp : p.Layered) : p.searchSignature t = none ↔
    ∃ u, (p.typeInfo u).kind = .param ∧ ReflTransGen p.Turns t u ∧ TransGen p.Turns u u := by
  rw [searchSignature_eq_none_iff]
  constructor
  · rintro ⟨u, hreach, hcircle⟩
    obtain ⟨v, hparam, hto, hfrom⟩ :=
      (exists_param_or_lt (fun _ _ => Turns.passes) hp hcircle).resolve_right (lt_irrefl _)
    exact ⟨v, hparam, hreach.trans hto, hfrom.trans_left hto⟩
  · rintro ⟨u, -, hreach, hcircle⟩
    exact ⟨u, hreach, hcircle⟩

/-- The search from a type parameter that is its own constraint has no end. -/
example : ({ types := #[{ kind := .param, constraint := some ⟨0⟩ }] } : Program).searchSignature ⟨0⟩ =
    none :=
  searchSignature_eq_none_iff.mpr ⟨⟨0⟩, .refl, .single ⟨rfl, [], [], rfl, nofun⟩⟩

end Program
end Moniker
