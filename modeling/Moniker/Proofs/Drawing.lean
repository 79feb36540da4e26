/-
# Names drawn one after another

The allocator avoids lists of names, so it knows beforehand how many names it has to try.
The loop behind it has no such bound: it tries one name after another until one is not taken
(`next?`), and it ends unless all names from its position on are taken
(`next?_eq_none_iff`).  Where only finitely many names are taken it ends because no name comes
twice, and it gives out the first free one in the order of short names; where the taken names
are a list, that is the one the allocator draws (`next?_contains`).

Each call may have its own idea of what is taken, and names may be free again.  As a call
leaves only the names behind its own to later calls (`ahead_eq_after`), the names come in order
all the same, and each is the first that its call could give (`movesForward_nextEach?`).
-/

import Moniker.Naming.Allocation
import Moniker.Proofs.WordOrder

namespace Moniker

/-- The first word comes before the second: it is shorter, or as long and before it in the
alphabet. -/
def Earlier (s t : String) : Prop := List.Shortlex (· < ·) s.toList t.toList

/-- What stands in front of both words does not matter. -/
theorem earlier_append_left_iff (head : String) {s t : String} :
    Earlier (head ++ s) (head ++ t) ↔ Earlier s t := by
  rw [Earlier, Earlier, String.toList_append, String.toList_append]
  induction head.toList with
  | nil => rfl
  | cons c head ih => rw [List.cons_append, List.cons_append, List.shortlex_cons_iff, ih]

theorem not_earlier_self (s : String) : ¬ Earlier s s := by
  rw [Earlier]
  exact Std.Irrefl.irrefl s.toList

theorem earlier_minified_iff {i j : Nat} : Earlier (minified i) (minified j) ↔ i < j := by
  rw [Earlier, minified, minified, String.toList_ofList, String.toList_ofList,
    shortlex_numeral_iff, Nat.succ_lt_succ_iff]

/-- The name is the first of these that is not taken: those before it are. -/
structure IsFirstFree (taken : String → Bool) (names : Set String) (name : String) : Prop where
  mem : name ∈ names
  free : taken name = false
  least : ∀ other ∈ names, taken other = false → other = name ∨ Earlier name other
  skipped : ∀ other ∈ names, Earlier other name → taken other = true

namespace NamePool

variable {pool rest : NamePool} {taken : String → Bool} {names given : List String}
  {calls : List (String → Bool)} {name : String} {i j fuel : Nat}

/-! ### The names of a pool -/

/-- The name at a position. -/
def nameAt (pool : NamePool) (i : Nat) : String := pool.head ++ minified i

theorem nameAt_injective : Function.Injective pool.nameAt :=
  fun _ _ h => @current_injective pool _ _ h

theorem earlier_nameAt_iff : Earlier (pool.nameAt i) (pool.nameAt j) ↔ i < j :=
  (earlier_append_left_iff _).trans earlier_minified_iff

/-- The names from the pool's position on. -/
def ahead (pool : NamePool) : Set String :=
  {name | ∃ word, word ≠ "" ∧ SmallWord word.toList ∧ name = pool.head ++ word ∧
    ¬ Earlier name pool.current}

/-- Those of them that come after all names given. -/
def after (pool : NamePool) (given : List String) : Set String :=
  {name ∈ pool.ahead | ∀ old ∈ given, Earlier old name}

/-- **The names from the position on are those at later positions.** -/
theorem mem_ahead_iff : name ∈ pool.ahead ↔ ∃ i, pool.next ≤ i ∧ pool.nameAt i = name := by
  constructor
  · rintro ⟨word, hne, hsmall, rfl, hnot⟩
    obtain ⟨i, -, rfl⟩ := bijOn_minified.surjOn ⟨hne, hsmall⟩
    exact ⟨i, Nat.le_of_not_lt fun hlt => hnot (earlier_nameAt_iff.mpr hlt), rfl⟩
  · rintro ⟨i, hi, rfl⟩
    obtain ⟨hne, hsmall⟩ := bijOn_minified.mapsTo (Set.mem_univ i)
    exact ⟨minified i, hne, hsmall, rfl, fun h => Nat.not_lt_of_le hi (earlier_nameAt_iff.mp h)⟩

theorem after_nil : pool.after [] = pool.ahead := by
  ext name
  simp [after]

/-- A pool that has given out a name has the later ones ahead. -/
theorem ahead_eq_after (h : pool.next ≤ i) :
    ({ pool with next := i + 1 } : NamePool).ahead = pool.after [pool.nameAt i] := by
  ext name
  simp only [after, Set.mem_ofPred_eq, mem_ahead_iff, List.forall_mem_singleton]
  constructor
  · rintro ⟨j, hj, rfl⟩
    exact ⟨⟨j, Nat.le_trans h (Nat.le_of_lt hj), rfl⟩, earlier_nameAt_iff.mpr hj⟩
  · rintro ⟨⟨j, -, rfl⟩, hlt⟩
    exact ⟨j, earlier_nameAt_iff.mp hlt, rfl⟩

/-- What comes after later names, for the pool behind a name, comes after all of them. -/
theorem after_cons (h : rest.ahead = pool.after [name]) (given : List String) :
    rest.after given = pool.after (name :: given) := by
  ext other
  rw [after, h]
  simp [after, and_assoc]

/-! ### The loop -/

/-- Gives out the next name that is not taken.  A search that never ends has no result. -/
def next? (taken : String → Bool) (pool : NamePool) : Option (String × NamePool) :=
  if taken pool.current then pool.advance |>.next? taken else some (pool.current, pool.advance)
partial_fixpoint

theorem next?_of_taken (h : taken pool.current = true) :
    pool.next? taken = pool.advance.next? taken := by
  rw [next?, if_pos h]

theorem next?_of_free (h : taken pool.current = false) :
    pool.next? taken = some (pool.current, pool.advance) := by
  rw [next?, if_neg (by rw [h]; exact Bool.false_ne_true)]

/-- The loop stops at a position: the name there is not taken, those passed are. -/
structure StopsAt (taken : String → Bool) (pool : NamePool) (i : Nat) : Prop where
  le : pool.next ≤ i
  free : taken (pool.nameAt i) = false
  passed : ∀ j, pool.next ≤ j → j < i → taken (pool.nameAt j) = true

theorem StopsAt.next? (h : StopsAt taken pool i) :
    pool.next? taken = some (pool.nameAt i, { pool with next := i + 1 }) := by
  obtain ⟨k, rfl⟩ := Nat.exists_eq_add_of_le h.le
  induction k generalizing pool with
  | zero => exact next?_of_free h.free
  | succ k ih =>
    have hcurrent : taken pool.current = true := h.passed pool.next le_rfl (by omega)
    have hadvance : pool.next + (k + 1) = pool.advance.next + k := by
      show pool.next + (k + 1) = pool.next + 1 + k
      omega
    rw [next?_of_taken hcurrent]
    rw [hadvance] at h ⊢
    exact ih ⟨Nat.le_add_right _ _, h.free, fun j hj hlt => h.passed j (Nat.le_of_succ_le hj) hlt⟩

/-- **What the loop gives out stands at the position where it stops.** -/
theorem exists_stopsAt (h : pool.next? taken = some (name, rest)) :
    ∃ i, StopsAt taken pool i ∧ name = pool.nameAt i ∧ rest = { pool with next := i + 1 } := by
  refine next?.partial_correctness taken
    (fun pool out => ∃ i, StopsAt taken pool i ∧ out = (pool.nameAt i, { pool with next := i + 1 }))
    ?_ pool (name, rest) h |>.imp fun i hi => ⟨hi.1, Prod.mk.inj hi.2⟩
  intro next? ih pool out hout
  split at hout
  · next htaken =>
    obtain ⟨i, hstops, rfl⟩ := ih _ _ hout
    refine ⟨i, ⟨Nat.le_of_succ_le hstops.le, hstops.free, fun j hj hlt => ?_⟩, rfl⟩
    rcases Nat.eq_or_lt_of_le hj with rfl | hlater
    · exact htaken
    · exact hstops.passed j hlater hlt
  · next hfree =>
    refine ⟨pool.next, ⟨le_rfl, Bool.eq_false_iff.mpr hfree, fun j hj hlt => ?_⟩,
      (Option.some.inj hout).symm⟩
    omega

/-- Where a name is free, the loop stops. -/
theorem exists_stopsAt_of_free (hi : pool.next ≤ i) (h : taken (pool.nameAt i) = false) :
    ∃ i, StopsAt taken pool i := by
  have hex : ∃ i, pool.next ≤ i ∧ taken (pool.nameAt i) = false := ⟨i, hi, h⟩
  refine ⟨Nat.find hex, (Nat.find_spec hex).1, (Nat.find_spec hex).2, fun j hj hlt => ?_⟩
  by_contra hfree
  exact Nat.find_min hex hlt ⟨hj, Bool.eq_false_iff.mpr hfree⟩

/-- **The loop never ends just if all names from the position on are taken.** -/
theorem next?_eq_none_iff : pool.next? taken = none ↔ ∀ name ∈ pool.ahead, taken name = true := by
  constructor
  · intro h name hname
    obtain ⟨i, hi, rfl⟩ := mem_ahead_iff.mp hname
    by_contra hfree
    obtain ⟨i, hstops⟩ := exists_stopsAt_of_free hi (Bool.eq_false_iff.mpr hfree)
    exact nomatch h.symm.trans hstops.next?
  · intro h
    rw [Option.eq_none_iff_forall_ne_some]
    rintro ⟨name, rest⟩ hsome
    obtain ⟨i, hstops, -, -⟩ := exists_stopsAt hsome
    have htaken := h _ (mem_ahead_iff.mpr ⟨i, hstops.le, rfl⟩)
    exact Bool.false_ne_true (hstops.free.symm.trans htaken)

/-- **Finitely many taken names do not keep the loop from ending.** -/
theorem exists_stopsAt_of_finite (h : {name | taken name = true}.Finite) (pool : NamePool) :
    ∃ i, StopsAt taken pool i := by
  -- No name comes twice, so infinitely many names would be taken.
  by_contra hnone
  refine Set.infinite_of_injective_forall_mem (f := fun i => pool.nameAt (pool.next + i))
    (fun i j hij => Nat.add_left_cancel (nameAt_injective hij)) (fun i => ?_) h
  by_contra hfree
  exact hnone (exists_stopsAt_of_free (Nat.le_add_right _ i) (Bool.eq_false_iff.mpr hfree))

/-- No more names are passed than are taken. -/
theorem StopsAt.le_add_ncard (hstops : StopsAt taken pool i)
    (h : {name | taken name = true}.Finite) : i ≤ pool.next + {name | taken name = true}.ncard := by
  have hsub : pool.nameAt '' Set.Ico pool.next i ⊆ {name | taken name = true} := by
    rintro _ ⟨j, ⟨hj, hlt⟩, rfl⟩
    exact hstops.passed j hj hlt
  have hle := Set.ncard_le_ncard hsub h
  rw [Set.ncard_image_of_injective _ nameAt_injective, ← Finset.coe_Ico, Set.ncard_coe_finset,
    Nat.card_Ico] at hle
  omega

theorem StopsAt.isFirstFree (h : StopsAt taken pool i) :
    IsFirstFree taken pool.ahead (pool.nameAt i) := by
  refine ⟨mem_ahead_iff.mpr ⟨i, h.le, rfl⟩, h.free, fun other hother hfree => ?_,
    fun other hother hlt => ?_⟩
  · obtain ⟨j, hj, rfl⟩ := mem_ahead_iff.mp hother
    rcases Nat.lt_trichotomy i j with hlt | rfl | hgt
    · exact .inr (earlier_nameAt_iff.mpr hlt)
    · exact .inl rfl
    · exact absurd (hfree.symm.trans (h.passed j hj hgt)) Bool.false_ne_true
  · obtain ⟨j, hj, rfl⟩ := mem_ahead_iff.mp hother
    exact h.passed j hj (earlier_nameAt_iff.mp hlt)

/-! ### Lists of taken names -/

theorem finite_contains (names : List String) : {name | names.contains name = true}.Finite :=
  names.finite_toSet.subset fun _ h => List.contains_iff_mem.mp h

/-- With as much fuel as it takes, the search with fuel is the loop. -/
theorem next?_eq_draw (h : taken (pool.draw taken fuel).1 = false) :
    pool.next? taken = some (pool.draw taken fuel) := by
  induction fuel generalizing pool with
  | zero => exact next?_of_free h
  | succ fuel ih =>
    rw [draw] at h ⊢
    split at h
    · next htaken =>
      rw [if_pos htaken, next?_of_taken htaken]
      exact ih h
    · next hfree =>
      rw [if_neg hfree]
      exact next?_of_free (Bool.eq_false_iff.mpr hfree)

/-- **What the allocator draws is what the loop gives out.** -/
theorem next?_contains (names : List String) (pool : NamePool) :
    pool.next? names.contains = some (pool.drawAvoiding names) := by
  refine next?_eq_draw (Bool.eq_false_iff.mpr fun htaken => ?_)
  exact drawAvoiding_not_mem (List.contains_iff_mem.mp htaken)

/-! ### Calls one after another -/

/-- Gives out a name for each call.  There is no result if one of the calls never ends. -/
def nextEach? : List (String → Bool) → NamePool → Option (List String × NamePool)
  | [], pool => some ([], pool)
  | taken :: calls, pool => do
    let (name, pool) ← pool.next? taken
    let (names, pool) ← nextEach? calls pool
    return (name :: names, pool)

/-- The names given out for calls come in order, each the first that its call can have behind
those given out before. -/
structure InOrder (pool : NamePool) (calls : List (String → Bool)) (names : List String)
    (rest : NamePool) : Prop where
  length : names.length = calls.length
  sorted : names.Pairwise Earlier
  nodup : names.Nodup
  first : ∀ (k : Nat) taken name, calls[k]? = some taken → names[k]? = some name →
    IsFirstFree taken (pool.after (names.take k)) name
  ahead : rest.ahead = pool.after names

theorem InOrder.nil (pool : NamePool) : InOrder pool [] [] pool where
  length := rfl
  sorted := .nil
  nodup := .nil
  first _ _ _ h := nomatch h
  ahead := after_nil.symm

/-- **A call in front of others keeps the order.** -/
theorem InOrder.cons {last : NamePool} (hfirst : IsFirstFree taken pool.ahead name)
    (hahead : rest.ahead = pool.after [name]) (h : InOrder rest calls names last) :
    InOrder pool (taken :: calls) (name :: names) last := by
  have hlater : ∀ other ∈ names, Earlier name other := by
    intro other hother
    obtain ⟨k, hk⟩ := List.mem_iff_getElem?.mp hother
    have hlt : k < calls.length := by
      rw [← h.length]
      exact (List.getElem?_eq_some_iff.mp hk).1
    have hmem := (h.first k calls[k] other (List.getElem?_eq_getElem hlt) hk).mem.1
    rw [hahead] at hmem
    exact hmem.2 name (List.mem_singleton.mpr rfl)
  have hsorted : (name :: names).Pairwise Earlier := List.pairwise_cons.mpr ⟨hlater, h.sorted⟩
  refine ⟨congrArg (· + 1) h.length, hsorted, hsorted.imp ?_, ?_, ?_⟩
  · rintro old _ hlt rfl
    exact not_earlier_self _ hlt
  · intro k call other hcall hother
    cases k with
    | zero =>
      obtain rfl := Option.some.inj hcall
      obtain rfl := Option.some.inj hother
      rwa [List.take_zero, after_nil]
    | succ k =>
      rw [List.take_succ_cons, ← after_cons hahead]
      exact h.first k call other hcall hother
  · rw [h.ahead, after_cons hahead]

/-- **A run of calls gives names in order.** -/
theorem exists_inOrder (pool : NamePool) (calls : List (String → Bool))
    (h : ∀ taken ∈ calls, {name | taken name = true}.Finite) :
    ∃ names rest, pool.nextEach? calls = some (names, rest) ∧ InOrder pool calls names rest := by
  induction calls generalizing pool with
  | nil => exact ⟨[], pool, rfl, .nil pool⟩
  | cons taken calls ih =>
    obtain ⟨i, hstops⟩ := exists_stopsAt_of_finite (h taken List.mem_cons_self) pool
    obtain ⟨names, last, hrun, hnames⟩ := ih { pool with next := i + 1 } fun call hcall =>
      h call (List.mem_cons_of_mem _ hcall)
    refine ⟨pool.nameAt i :: names, last, ?_,
      hnames.cons hstops.isFirstFree (ahead_eq_after hstops.le)⟩
    simp only [nextEach?, hstops.next?, hrun, Option.bind_eq_bind, Option.bind_some, Option.pure_def]

/-- **A pool always finds a name, and only moves forward.**  If finitely many names are taken, a
call ends, tries one name more than are taken at most, and gives out the first free one from the
pool's position on; what is left ahead are the names behind it.  So for calls that take
different names, one after another, names come in order and none comes twice, and every name
that a call passes over is taken for that call.  What the allocator avoids are finitely many
names, and what it draws is what the loop gives out. -/
theorem movesForward_nextEach? (pool : NamePool) :
    (∀ taken, {name | taken name = true}.Finite → ∃ name rest,
      pool.next? taken = some (name, rest) ∧ IsFirstFree taken pool.ahead name ∧
        rest.ahead = pool.after [name] ∧
        rest.next ≤ pool.next + {name | taken name = true}.ncard + 1) ∧
    (∀ calls, (∀ taken ∈ calls, {name | taken name = true}.Finite) → ∃ names rest,
      pool.nextEach? calls = some (names, rest) ∧ InOrder pool calls names rest) ∧
    ∀ (a : Allocator) (fixed : List String) (unresolved : List String) (d : Domain),
      {name | (a.taken { pool, fixed } unresolved d).contains name = true}.Finite ∧
        pool.next? (a.taken { pool, fixed } unresolved d).contains =
          some (pool.drawAvoiding (a.taken { pool, fixed } unresolved d)) := by
  refine ⟨fun taken h => ?_, exists_inOrder pool, fun a fixed unresolved d =>
    ⟨finite_contains _, next?_contains _ pool⟩⟩
  obtain ⟨i, hstops⟩ := exists_stopsAt_of_finite h pool
  exact ⟨_, _, hstops.next?, hstops.isFirstFree, ahead_eq_after hstops.le,
    Nat.succ_le_succ (hstops.le_add_ncard h)⟩

/-- Three calls: `a` and `c` are taken for the first two, and free again for the last. -/
def freedCalls : List (String → Bool) :=
  [["a", "c"].contains, ["a", "c"].contains, [].contains]

theorem movesForward_nextEach?_freedCalls :
    (∀ taken ∈ freedCalls, {name | taken name = true}.Finite) ∧
      ({} : NamePool).nextEach? freedCalls = some (["b", "d", "e"], { next := 5 }) ∧
      InOrder {} freedCalls ["b", "d", "e"] { next := 5 } := by
  have hfinite : ∀ taken ∈ freedCalls, {name | taken name = true}.Finite := by
    simp only [freedCalls, List.forall_mem_cons]
    exact ⟨finite_contains _, finite_contains _, finite_contains _, fun _ h => nomatch h⟩
  obtain ⟨names, rest, hrun, horder⟩ := (movesForward_nextEach? {}).2.1 freedCalls hfinite
  have hresult : ({} : NamePool).nextEach? freedCalls = some (["b", "d", "e"], { next := 5 }) := by
    simp only [freedCalls, nextEach?, next?_contains]
    cbv
  rw [hresult] at hrun
  cases hrun
  exact ⟨hfinite, hresult, horder⟩

end NamePool
end Moniker
