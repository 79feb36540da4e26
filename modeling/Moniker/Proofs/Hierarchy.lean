/-
# What a type extends

A type `Inherits` from what its declaration extends, directly or through what that
extends.  Two searches follow the bases of a type: the list of all it extends
(`Allocator.basesWithin`) and the search for a property (`Program.property?`).
Both go depth first, enter no type twice and stop after as many levels as there are
types.

`Walks` says what such a walk is, apart from any bound.  A walk enters all that it
can reach (`Walks.mem_of_reaches`), and the bound is never met: each level enters
another type (`walks_basesWithin`, `walks_propertyWithin`).  So the list of bases is
complete (`mem_basesWithin`), and a property that something inherited has is found
(`isSome_property?`).
-/

import Moniker.Naming.Allocation
import Mathlib.Data.Fintype.Card
import Mathlib.Data.List.Nodup
import Mathlib.Logic.Relation

namespace Moniker

/-- A walk along edges that enters the types of a list one after another, what each
leads to before the next.  Types in `seen` are not entered again, and `result` has
those and all that were entered. -/
inductive Walks (edges : TypeId → List TypeId) (skips : TypeId → Prop) :
    List TypeId → List TypeId → List TypeId → Prop where
  | nil {seen} : Walks edges skips [] seen seen
  | skip {t ts seen result} : t ∈ seen ∨ skips t → Walks edges skips ts seen result →
    Walks edges skips (t :: ts) seen result
  | enter {t ts seen mid result} : t ∉ seen → Walks edges skips (edges t) (t :: seen) mid →
    Walks edges skips ts mid result → Walks edges skips (t :: ts) seen result

namespace Walks

variable {edges : TypeId → List TypeId} {skips : TypeId → Prop} {t u : TypeId}
  {ts seen mid result : List TypeId}

theorem cons (h₁ : Walks edges skips [t] seen mid) (h₂ : Walks edges skips ts mid result) :
    Walks edges skips (t :: ts) seen result := by
  cases h₁ with
  | skip hskip hnil =>
    cases hnil
    exact .skip hskip h₂
  | enter hnew hinside hnil =>
    cases hnil
    exact .enter hnew hinside h₂

/-- What has been entered stays. -/
theorem kept (h : Walks edges skips ts seen result) : ∀ x ∈ seen, x ∈ result := by
  induction h with
  | nil => exact fun _ hx => hx
  | skip _ _ ih => exact ih
  | enter _ _ _ ih₁ ih₂ => exact fun x hx => ih₂ x (ih₁ x (List.mem_cons_of_mem _ hx))

theorem nodup (h : Walks edges skips ts seen result) (hseen : seen.Nodup) : result.Nodup := by
  induction h with
  | nil => exact hseen
  | skip _ _ ih => exact ih hseen
  | enter hnew _ _ ih₁ ih₂ => exact ih₂ (ih₁ (List.nodup_cons.mpr ⟨hnew, hseen⟩))

/-- The types of the list are entered. -/
theorem mem (h : Walks edges skips ts seen result) (ht : t ∈ ts) (hskip : ¬ skips t) :
    t ∈ result := by
  induction h with
  | nil => exact absurd ht List.not_mem_nil
  | skip hstop hrest ih =>
    rcases List.mem_cons.mp ht with rfl | ht
    · exact hrest.kept t (hstop.resolve_right hskip)
    · exact ih ht
  | enter _ hinside hrest _ ih =>
    rcases List.mem_cons.mp ht with rfl | ht
    · exact hrest.kept t (hinside.kept t List.mem_cons_self)
    · exact ih ht

/-- What a type entered leads to is entered too. -/
theorem closed (h : Walks edges skips ts seen result) :
    ∀ x ∈ result, x ∈ seen ∨ ∀ y ∈ edges x, ¬ skips y → y ∈ result := by
  induction h with
  | nil => exact fun x hx => .inl hx
  | skip _ _ ih => exact ih
  | enter _ hinside hrest ih₁ ih₂ =>
    intro x hx
    rcases ih₂ x hx with hx | hclosed
    · rcases ih₁ x hx with hx | hclosed
      · rcases List.mem_cons.mp hx with rfl | hx
        · exact .inr fun y hy hskip => hrest.kept y (hinside.mem hy hskip)
        · exact .inl hx
      · exact .inr fun y hy hskip => hrest.kept y (hclosed y hy hskip)
    · exact .inr hclosed

/-- **A walk from nothing enters all that it can reach.** -/
theorem mem_of_reaches (h : Walks edges skips [t] [] result) (ht : ¬ skips t)
    (hreach : Relation.ReflTransGen (fun x y => y ∈ edges x ∧ ¬ skips y) t u) : u ∈ result := by
  induction hreach with
  | refl => exact h.mem List.mem_cons_self ht
  | tail _ hstep ih =>
    rcases h.closed _ ih with hnil | hclosed
    · exact absurd hnil List.not_mem_nil
    · exact hclosed _ hstep.1 hstep.2

end Walks

namespace Program

variable {p : Program} {t u : TypeId} {seen result : List TypeId} {name : String}

/-- The type extends the other one, directly or through what it extends. -/
def Inherits (p : Program) (t u : TypeId) : Prop :=
  Relation.TransGen (fun x y => y ∈ (p.typeInfo x).bases ∧ (p.typeInfo y).kind = .object) t u

theorem Inherits.kind_eq (h : p.Inherits t u) : (p.typeInfo u).kind = .object := by
  cases h with
  | single hstep => exact hstep.2
  | tail _ hstep => exact hstep.2

/-! ### The bound -/

/-- How many of the types of the program are in the list. -/
def entered (p : Program) (seen : List TypeId) : Nat :=
  (seen.filter fun t => decide (t.idx < p.types.size)).length

theorem entered_le (h : seen.Nodup) : p.entered seen ≤ p.types.size := by
  have hnodup : ((seen.filter fun t => decide (t.idx < p.types.size)).map TypeId.idx).Nodup :=
    (h.filter _).map fun x y hxy => by cases x; cases y; exact congrArg TypeId.mk hxy
  have hsub : (seen.filter fun t => decide (t.idx < p.types.size)).map TypeId.idx ⊆
      List.range p.types.size := by
    intro i hi
    obtain ⟨x, hx, rfl⟩ := List.mem_map.mp hi
    exact List.mem_range.mpr (by simpa using (List.mem_filter.mp hx).2)
  have hle := hnodup.length_le_of_subset hsub
  rwa [List.length_map, List.length_range] at hle

theorem entered_mono (h : seen.Nodup) (hsub : ∀ x ∈ seen, x ∈ result) :
    p.entered seen ≤ p.entered result := by
  refine (h.filter _).length_le_of_subset fun x hx => ?_
  obtain ⟨hmem, hlt⟩ := List.mem_filter.mp hx
  exact List.mem_filter.mpr ⟨hsub x hmem, hlt⟩

theorem entered_cons (h : t.idx < p.types.size) (seen : List TypeId) :
    p.entered (t :: seen) = p.entered seen + 1 := by
  rw [entered, List.filter_cons, if_pos (by simpa using h), List.length_cons]
  rfl

/-! ### All that a type extends -/

theorem idx_lt_of_kind_ne (h : (p.typeInfo t).kind ≠ .intrinsic) : t.idx < p.types.size := by
  by_contra hge
  rw [typeInfo, getD_of_size_le (Nat.le_of_not_lt hge)] at h
  exact h rfl

theorem isIntrinsic_eq_false (h : (p.typeInfo t).kind ≠ .intrinsic) : p.isIntrinsic t = false := by
  rw [isIntrinsic, beq_eq_false_iff_ne]
  exact h

theorem walks_basesWithin (fuel : Nat) : ∀ (t : TypeId) {seen : List TypeId}, seen.Nodup →
    p.types.size < fuel + p.entered seen →
    Walks (fun x => (p.typeInfo x).bases) (fun x => p.isIntrinsic x = true) [t] seen
      (Allocator.basesWithin p fuel t seen) := by
  induction fuel with
  | zero =>
    intro t seen hnodup hfuel
    have hle := p.entered_le hnodup
    omega
  | succ fuel ih =>
    intro t seen hnodup hfuel
    unfold Allocator.basesWithin
    split
    · next hstop =>
      rw [Bool.or_eq_true, List.contains_iff_mem] at hstop
      exact .skip hstop.symm .nil
    · next hgo =>
      rw [Bool.or_eq_true, not_or, List.contains_iff_mem] at hgo
      obtain ⟨hproper, hnew⟩ := hgo
      have hlt : t.idx < p.types.size :=
        idx_lt_of_kind_ne fun hkind => hproper (by rw [isIntrinsic, hkind]; rfl)
      -- The bases one after another, each with the types entered so far.
      have hfold : ∀ (bs seen : List TypeId), seen.Nodup → p.types.size < fuel + p.entered seen →
          Walks (fun x => (p.typeInfo x).bases) (fun x => p.isIntrinsic x = true) bs seen
            (bs.foldl (fun seen b => Allocator.basesWithin p fuel b seen) seen) := by
        intro bs
        induction bs with
        | nil => exact fun _ _ _ => .nil
        | cons b bs ihbs =>
          intro seen hnodup hfuel
          have hfirst := ih b hnodup hfuel
          have hmono := p.entered_mono hnodup hfirst.kept
          exact hfirst.cons (ihbs _ (hfirst.nodup hnodup) (by omega))
      have hcons := p.entered_cons hlt seen
      exact .enter hnew (hfold _ _ (List.nodup_cons.mpr ⟨hnew, hnodup⟩) (by omega)) .nil

/-- **What a type extends is entered from one of its bases.** -/
theorem mem_basesWithin (h : p.Inherits t u) : ∃ b ∈ (p.typeInfo t).bases,
    u ∈ Allocator.basesWithin p (p.types.size + 1) b [] := by
  have hproper : ∀ {x}, (p.typeInfo x).kind = .object → ¬ p.isIntrinsic x = true := by
    intro x hkind
    rw [isIntrinsic_eq_false (by rw [hkind]; decide)]
    exact Bool.false_ne_true
  obtain ⟨b, ⟨hb, hkind⟩, hreach⟩ := Relation.TransGen.head'_iff.mp h
  have hwalk := p.walks_basesWithin (p.types.size + 1) b .nil (by omega)
  refine ⟨b, hb, hwalk.mem_of_reaches (hproper hkind) ?_⟩
  exact hreach.lift id fun _ _ hstep => ⟨hstep.1, hproper hstep.2⟩

/-! ### Searching for a property -/

theorem propertyEdges_of_size_le (h : p.types.size ≤ t.idx) : propertyEdges (p.typeInfo t) = [] := by
  rw [typeInfo, getD_of_size_le h]
  rfl

/-- None of the types has the property itself. -/
def Lack (p : Program) (name : String) (ts : List TypeId) : Prop :=
  ∀ t ∈ ts, p.ownProperty? (p.typeInfo t) name = none

/-- What is found ends the search. -/
theorem foldl_found {step : Option SymbolId × List TypeId → TypeId → Option SymbolId × List TypeId}
    (hfound : ∀ m seen t, step (some m, seen) t = (some m, seen)) {m : SymbolId} (ts : List TypeId) :
    ts.foldl step (some m, seen) = (some m, seen) := by
  induction ts with
  | nil => rfl
  | cons t ts ih => rw [List.foldl_cons, hfound, ih]

/-- A search through a list that finds nothing, if the search from each type of the
list is a walk when it finds nothing. -/
theorem walks_foldl {fuel : Nat}
    {step : Option SymbolId × List TypeId → TypeId → Option SymbolId × List TypeId}
    (hfound : ∀ m seen t, step (some m, seen) t = (some m, seen))
    (hvisit : ∀ (t : TypeId) {seen : List TypeId}, seen.Nodup →
      p.types.size < fuel + p.entered seen → p.Lack name seen → (step (none, seen) t).1 = none →
      Walks (fun x => propertyEdges (p.typeInfo x)) (fun _ => False) [t] seen (step (none, seen) t).2 ∧
        p.Lack name (step (none, seen) t).2) :
    ∀ (ts : List TypeId) {seen : List TypeId}, seen.Nodup →
      ts = [] ∨ p.types.size < fuel + p.entered seen → p.Lack name seen →
      (ts.foldl step (none, seen)).1 = none →
      Walks (fun x => propertyEdges (p.typeInfo x)) (fun _ => False) ts seen
          (ts.foldl step (none, seen)).2 ∧
        p.Lack name (ts.foldl step (none, seen)).2 := by
  intro ts
  induction ts with
  | nil => exact fun _ _ hlack _ => ⟨.nil, hlack⟩
  | cons t ts ih =>
    intro seen hnodup hfuel hlack hnone
    have hfuel := hfuel.resolve_left (List.cons_ne_nil t ts)
    rw [List.foldl_cons] at hnone ⊢
    obtain ⟨found, seen', hstep⟩ : ∃ found seen', step (none, seen) t = (found, seen') :=
      ⟨_, _, rfl⟩
    cases found with
    | some m =>
      rw [hstep, foldl_found hfound] at hnone
      exact nomatch hnone
    | none =>
      obtain ⟨hwalk, hlack'⟩ := hvisit t hnodup hfuel hlack (by rw [hstep])
      rw [hstep] at hwalk hlack' hnone ⊢
      have hmono := p.entered_mono hnodup hwalk.kept
      obtain ⟨hrest, hlack''⟩ := ih (hwalk.nodup hnodup) (.inr (by omega)) hlack' hnone
      exact ⟨hwalk.cons hrest, hlack''⟩

/-- **A search that finds nothing has been to all it can reach.** -/
theorem walks_propertyWithin (fuel : Nat) : ∀ (t : TypeId) {seen : List TypeId}, seen.Nodup →
    p.types.size < fuel + p.entered seen → p.Lack name seen →
    (p.propertyWithin name fuel t seen).1 = none →
    Walks (fun x => propertyEdges (p.typeInfo x)) (fun _ => False) [t] seen
        (p.propertyWithin name fuel t seen).2 ∧
      p.Lack name (p.propertyWithin name fuel t seen).2 := by
  induction fuel with
  | zero =>
    intro t seen hnodup hfuel
    have hle := p.entered_le hnodup
    omega
  | succ fuel ih =>
    intro t seen hnodup hfuel hlack
    unfold propertyWithin
    split
    · next hstop => exact fun _ => ⟨.skip (.inl (List.contains_iff_mem.mp hstop)) .nil, hlack⟩
    · next hnew =>
      rw [List.contains_iff_mem] at hnew
      dsimp only
      split
      · exact fun hsome => nomatch hsome
      · next hown =>
        intro hnone
        have hlack' : p.Lack name (t :: seen) := List.forall_mem_cons.mpr ⟨hown, hlack⟩
        -- A type that is not in the program leads nowhere; any other takes up room.
        have hfuel' : propertyEdges (p.typeInfo t) = [] ∨
            p.types.size < fuel + p.entered (t :: seen) := by
          rcases Nat.lt_or_ge t.idx p.types.size with hlt | hge
          · have hcons := p.entered_cons hlt seen
            exact .inr (by omega)
          · exact .inl (propertyEdges_of_size_le hge)
        obtain ⟨hinside, hlack''⟩ := walks_foldl (fun _ _ _ => rfl) ih _
          (List.nodup_cons.mpr ⟨hnew, hnodup⟩) hfuel' hlack' hnone
        exact ⟨.enter hnew hinside .nil, hlack''⟩

/-- **A property is found if a type that the search can reach has it.** -/
theorem isSome_property? (hown : (p.ownProperty? (p.typeInfo u) name).isSome = true)
    (hreach : Relation.ReflTransGen (fun x y => y ∈ propertyEdges (p.typeInfo x)) t u) :
    (p.property? t name).isSome = true := by
  by_contra hnone
  rw [Bool.not_eq_true, Option.isSome_eq_false_iff, Option.isNone_iff_eq_none] at hnone
  obtain ⟨hwalk, hlack⟩ := p.walks_propertyWithin (p.types.size + 1) t .nil (by omega)
    (fun _ hx => absurd hx List.not_mem_nil) hnone
  have hmem := hwalk.mem_of_reaches not_false
    (hreach.lift id fun _ _ hstep => ⟨hstep, not_false⟩)
  rw [hlack u hmem] at hown
  exact Bool.false_ne_true hown

/-- The bases of objects are searched. -/
theorem reaches_of_inherits {b : TypeId} (hkind : (p.typeInfo b).kind = .object)
    (h : Relation.ReflTransGen
      (fun x y => y ∈ (p.typeInfo x).bases ∧ (p.typeInfo y).kind = .object) b u) :
    Relation.ReflTransGen (fun x y => y ∈ propertyEdges (p.typeInfo x)) b u := by
  induction h using Relation.ReflTransGen.head_induction_on with
  | refl => exact .refl
  | head hstep _ ih =>
    refine .head ?_ (ih hstep.2)
    rw [propertyEdges, hkind]
    exact hstep.1

/-- A base of the type has the property if something the type inherits from has it. -/
theorem any_bases_property? (h : p.Inherits t u)
    (hown : (p.ownProperty? (p.typeInfo u) name).isSome = true) :
    ((p.typeInfo t).bases.any fun b => (p.property? b name).isSome) = true := by
  obtain ⟨b, ⟨hb, hkind⟩, hreach⟩ := Relation.TransGen.head'_iff.mp h
  exact List.any_eq_true.mpr ⟨b, hb, isSome_property? hown (reaches_of_inherits hkind hreach)⟩

end Program
end Moniker
