/-
# Tables

A `Table` gives keys their values, a `KeySet` has keys.  Both are search trees: keys
are compared, not hashed, so that what is kept in a table can be worked out by plain
evaluation, inside a proof as well.

What is `Numbered` is compared by its numbers.  For such keys, and for names, being
compared as equal is being equal, and the laws of tables can be told with `==`.
-/

import Std.Data.TreeMap
import Std.Data.TreeSet

namespace Moniker

/-- What is told apart by numbers. -/
class Numbered (κ : Type) where
  number : κ → Nat
  number_injective : Function.Injective number

instance Numbered.ord [Numbered κ] : Ord κ := ⟨compareOn Numbered.number⟩

instance Numbered.transOrd [Numbered κ] : Std.TransOrd κ :=
  inferInstanceAs (Std.TransCmp (compareOn (Numbered.number (κ := κ))))

instance Numbered.lawfulEqOrd [Numbered κ] : Std.LawfulEqOrd κ where
  eq_of_compare h := Numbered.number_injective (Std.LawfulEqOrd.eq_of_compare h)

/-- Values by key. -/
abbrev Table (κ ν : Type) [Ord κ] := Std.TreeMap κ ν

/-- Some keys. -/
abbrev KeySet (κ : Type) [Ord κ] := Std.TreeSet κ

@[simp] theorem KeySet.contains_eq_false_iff {κ : Type} [Ord κ] {t : KeySet κ} {a : κ} :
    t.contains a = false ↔ a ∉ t := by
  rw [Bool.eq_false_iff, ne_eq, Std.TreeSet.contains_iff_mem]

section

variable {κ ν : Type} [Ord κ] [Std.LawfulEqOrd κ] [BEq κ] [LawfulBEq κ] {a k : κ} {v d : ν}

theorem compare_eq_iff : compare a k = .eq ↔ (a == k) = true :=
  Std.compare_eq_iff_eq.trans beq_iff_eq.symm

variable [Std.TransOrd κ]

namespace Table

variable {t : Table κ ν}

theorem getElem?_insert : (t.insert k v)[a]? = if (k == a) = true then some v else t[a]? := by
  rw [Std.TreeMap.getElem?_insert]
  simp only [compare_eq_iff]

theorem getElem?_insertIfNew :
    (t.insertIfNew k v)[a]? = if (k == a) = true ∧ k ∉ t then some v else t[a]? := by
  rw [Std.TreeMap.getElem?_insertIfNew]
  simp only [compare_eq_iff]

theorem contains_insert : (t.insert k v).contains a = (k == a || t.contains a) := by
  rw [Std.TreeMap.contains_insert, Bool.eq_iff_iff]
  simp only [Bool.or_eq_true, beq_iff_eq, Std.compare_eq_iff_eq]

theorem getD_insert : (t.insert k v).getD a d = if (k == a) = true then v else t.getD a d := by
  rw [Std.TreeMap.getD_insert]
  simp only [compare_eq_iff]

theorem getD_alter {f : Option ν → Option ν} :
    (t.alter k f).getD a d = if (k == a) = true then (f t[k]?).getD d else t.getD a d := by
  rw [Std.TreeMap.getD_alter]
  simp only [compare_eq_iff]

end Table

namespace KeySet

variable {t : KeySet κ}

theorem contains_insert : (t.insert k).contains a = (k == a || t.contains a) := by
  rw [Std.TreeSet.contains_insert, Bool.eq_iff_iff]
  simp only [Bool.or_eq_true, beq_iff_eq, Std.compare_eq_iff_eq]

theorem mem_insert : a ∈ t.insert k ↔ (k == a) = true ∨ a ∈ t := by
  rw [Std.TreeSet.mem_insert, compare_eq_iff]

theorem contains_erase : (t.erase k).contains a = (!(k == a) && t.contains a) := by
  rw [Std.TreeSet.contains_erase, Bool.eq_iff_iff]
  simp

end KeySet
end
end Moniker
