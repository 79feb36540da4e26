/-
# Drawing short names

Different numbers have different short names (`minified_injective`), because the
last letter and the numeral before it give the number back.  So the names a pool
passes are pairwise different, a list of `k` names cannot hold `k + 1` of them, and
what `drawAvoiding` gives out is not in the list it avoids (`drawAvoiding_not_mem`).  Since a
pool only moves forward (`draws_draw`), it never gives out a name twice.
-/

import Moniker.Naming.Minified
import Mathlib.Data.List.Nodup

namespace Moniker

theorem toNat_letter {digit : Nat} (h : digit < 26) : (letter digit).toNat = 0x61 + digit := by
  have hvalid : (0x61 + digit).isValidChar := .inl (by omega)
  rw [letter, Char.ofNat, dif_pos hvalid]
  rfl

theorem letter_injective {i j : Nat} (hi : i < 26) (hj : j < 26) (h : letter i = letter j) :
    i = j := by
  have h' := congrArg Char.toNat h
  rw [toNat_letter hi, toNat_letter hj] at h'
  omega

theorem numeral_zero : numeral 0 = [] := by
  rw [numeral, dif_pos rfl]

theorem numeral_succ (n : Nat) : numeral (n + 1) = numeral (n / 26) ++ [letter (n % 26)] := by
  rw [numeral]
  simp

/-- Different numbers have different numerals. -/
theorem numeral_injective : ∀ {m n : Nat}, numeral m = numeral n → m = n
  | 0, 0, _ => rfl
  | 0, n + 1, h => by
    rw [numeral_succ, numeral_zero] at h
    exact absurd h.symm (List.append_ne_nil_of_right_ne_nil _ (List.cons_ne_nil _ _))
  | m + 1, 0, h => by
    rw [numeral_succ, numeral_zero] at h
    exact absurd h (List.append_ne_nil_of_right_ne_nil _ (List.cons_ne_nil _ _))
  | m + 1, n + 1, h => by
    rw [numeral_succ, numeral_succ] at h
    obtain ⟨hinit, hlast⟩ := List.append_inj' h rfl
    have hmod : m % 26 = n % 26 :=
      letter_injective (Nat.mod_lt _ (by omega)) (Nat.mod_lt _ (by omega)) (List.cons.inj hlast).1
    have hdiv : m / 26 = n / 26 := numeral_injective hinit
    omega
termination_by m => m

/-- **Different numbers have different short names.** -/
theorem minified_injective {i j : Nat} (h : minified i = minified j) : i = j := by
  have h' := numeral_injective (String.ofList_injective h)
  omega

namespace NamePool

variable {pool : NamePool} {taken : String → Bool} {names : List String}

theorem current_injective {i j : Nat}
    (h : ({ pool with next := i } : NamePool).current = { pool with next := j }.current) : i = j :=
  minified_injective (String.append_right_inj _ |>.mp h)

theorem current_ne_empty : pool.current ≠ "" := by
  intro h
  have hlist := congrArg String.toList h
  rw [current, minified, String.toList_append, String.toList_ofList, numeral_succ] at hlist
  exact absurd hlist (by simp)

/-- If the name drawn is taken, so are all names that were tried. -/
theorem taken_of_draw (fuel : Nat) (h : taken (pool.draw taken fuel).1 = true) :
    ∀ i ≤ fuel, taken ({ pool with next := pool.next + i } : NamePool).current = true := by
  induction fuel generalizing pool with
  | zero =>
    intro i hi
    rw [Nat.le_zero.mp hi]
    exact h
  | succ fuel ih =>
    rw [draw] at h
    split at h
    · next htaken =>
      intro i hi
      cases i with
      | zero => exact htaken
      | succ i =>
        have := ih h i (Nat.le_of_succ_le_succ hi)
        rwa [advance, Nat.add_assoc, Nat.add_comm 1 i] at this
    · next hfree => exact absurd h hfree

/-- The pool has given out the name and stands behind it. -/
def Draws (pool : NamePool) (name : String) (rest : NamePool) : Prop :=
  ∃ i, pool.next ≤ i ∧ name = ({ pool with next := i } : NamePool).current ∧
    rest = { pool with next := i + 1 }

/-- The pool has the name behind it. -/
def Spent (pool : NamePool) (name : String) : Prop :=
  ∃ i < pool.next, name = ({ pool with next := i } : NamePool).current

theorem Draws.spent {name : String} {rest : NamePool} (h : pool.Draws name rest) :
    rest.Spent name := by
  obtain ⟨i, _, rfl, rfl⟩ := h
  exact ⟨i, Nat.lt_succ_self i, rfl⟩

theorem Spent.of_draws {old name : String} {rest : NamePool} (h : pool.Spent old)
    (hdraws : pool.Draws name rest) : rest.Spent old := by
  obtain ⟨i, hi, rfl⟩ := h
  obtain ⟨j, hj, _, rfl⟩ := hdraws
  exact ⟨i, Nat.lt_succ_of_lt (Nat.lt_of_lt_of_le hi hj), rfl⟩

theorem Spent.ne_empty {name : String} (h : pool.Spent name) : name ≠ "" := by
  obtain ⟨i, _, rfl⟩ := h
  exact current_ne_empty

/-- A pool does not give out a name that it has behind it. -/
theorem Spent.ne_of_draws {old name : String} {rest : NamePool} (h : pool.Spent old)
    (hdraws : pool.Draws name rest) : old ≠ name := by
  obtain ⟨i, hi, rfl⟩ := h
  obtain ⟨j, hj, rfl, _⟩ := hdraws
  intro heq
  have hij := current_injective heq
  omega

/-- **A pool only moves forward.** -/
theorem draws_draw (fuel : Nat) :
    Draws pool (pool.draw taken fuel).1 (pool.draw taken fuel).2 := by
  induction fuel generalizing pool with
  | zero => exact ⟨pool.next, Nat.le_refl _, rfl, rfl⟩
  | succ fuel ih =>
    rw [draw]
    split
    · obtain ⟨i, hi, hname, hrest⟩ := @ih pool.advance
      exact ⟨i, Nat.le_of_succ_le hi, hname, hrest⟩
    · exact ⟨pool.next, Nat.le_refl _, rfl, rfl⟩

/-- **What is drawn is not in the list to be avoided.** -/
theorem drawAvoiding_not_mem : (pool.drawAvoiding names).1 ∉ names := by
  intro hmem
  have htaken := taken_of_draw names.length (List.contains_iff_mem.mpr hmem)
  -- One name more than the list has, all of them in the list.
  let tried := (List.range (names.length + 1)).map fun i =>
    ({ pool with next := pool.next + i } : NamePool).current
  have hnodup : tried.Nodup := List.Nodup.map
    (fun i j h => Nat.add_left_cancel (current_injective h)) List.nodup_range
  have hsub : tried ⊆ names := by
    intro name hname
    obtain ⟨i, hi, rfl⟩ := List.mem_map.mp hname
    exact List.contains_iff_mem.mp (htaken i (Nat.le_of_lt_succ (List.mem_range.mp hi)))
  have hle := hnodup.length_le_of_subset hsub
  rw [List.length_map, List.length_range] at hle
  omega

end NamePool
end Moniker
