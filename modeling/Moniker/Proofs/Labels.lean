/-
# Lists without repetitions

What is made of pairwise different labels can be told apart by them: of the values made, those
with a given label are what that label gives (`filter_filterMap_of_label`).  Taking each value
of a list once leaves them pairwise different (`nodup_eraseDups`).
-/

import Mathlib.Data.String.Basic

namespace Moniker

/-- Of values made from pairwise different labels, each keeping its label, those with
a given label are what that label gives, if it is there. -/
theorem filter_filterMap_of_label {α : Type} {f : String → Option α}
    {label : α → Option String} (hlabel : ∀ x a, f x = some a → label a = some x)
    (file : String) : ∀ {xs : List String}, xs.Nodup →
      (xs.filterMap f).filter (fun a => label a == some file) =
        if file ∈ xs then (f file).toList else []
  | [], _ => rfl
  | x :: rest, hnodup => by
    obtain ⟨hx, hrest⟩ := List.nodup_cons.1 hnodup
    have ih := filter_filterMap_of_label hlabel file hrest
    by_cases heq : x = file
    · subst heq
      rw [if_neg hx] at ih
      rw [if_pos List.mem_cons_self]
      cases hmake : f x with
      | none => rw [List.filterMap_cons_none hmake, ih, Option.toList_none]
      | some a =>
        rw [List.filterMap_cons_some hmake, List.filter_cons_of_pos, ih, Option.toList_some]
        rw [hlabel x a hmake, beq_self_eq_true]
    · have hiff : (file ∈ x :: rest) ↔ file ∈ rest :=
        List.mem_cons.trans (or_iff_right (Ne.symm heq))
      rw [if_congr hiff rfl rfl, ← ih]
      cases hmake : f x with
      | none => rw [List.filterMap_cons_none hmake]
      | some a =>
        rw [List.filterMap_cons_some hmake, List.filter_cons_of_neg]
        rw [hlabel x a hmake, beq_iff_eq, Option.some_inj]
        exact heq

/-- The labels of values made from labels are the labels that give a value. -/
theorem map_filterMap_of_label {α : Type} {f : String → Option α} {label : α → Option String}
    (hlabel : ∀ x a, f x = some a → label a = some x) (xs : List String) :
    (xs.filterMap f).map label = (xs.filter fun x => (f x).isSome).map some := by
  induction xs with
  | nil => rfl
  | cons x rest ih =>
    cases hmake : f x with
    | none => rw [List.filterMap_cons_none hmake, ih, List.filter_cons_of_neg (by simp [hmake])]
    | some a =>
      rw [List.filterMap_cons_some hmake, List.filter_cons_of_pos (by simp [hmake]), List.map_cons,
        List.map_cons, ih, hlabel x a hmake]

/-- Taking each value once leaves no repetition. -/
theorem nodup_eraseDups {α : Type} [BEq α] [LawfulBEq α] : ∀ xs : List α, xs.eraseDups.Nodup
  | [] => by
    rw [List.eraseDups_nil]
    exact List.nodup_nil
  | x :: rest => by
    rw [List.eraseDups_cons, List.nodup_cons]
    refine ⟨fun hmem => ?_, nodup_eraseDups _⟩
    have hfilter := (List.mem_filter.1 (List.mem_eraseDups.1 hmem)).2
    simp at hfilter
termination_by xs => xs.length
decreasing_by exact Nat.lt_succ_of_le (List.length_filter_le _ rest)

end Moniker
