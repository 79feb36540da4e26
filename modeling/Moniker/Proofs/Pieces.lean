/-
# Texts and their pieces

A text is its pieces with the separator between them (`Text.join_split`), and pieces that do
not hold the separator can be told apart again (`Text.split_join`).
-/

import Moniker.Text.Bytes
import Mathlib.Order.Nat

namespace Moniker
namespace Text

variable {sep : Char} {between s t : String} {pieces : List String}

theorem splitChars_eq_splitOn (sep : Char) (cs : List Char) :
    splitChars sep cs = cs.splitOn sep := by
  induction cs with
  | nil => rfl
  | cons c cs ih =>
    unfold splitChars
    rw [ih, List.splitOn, List.splitOn, List.splitOnP_cons_eq_if_modifyHead]
    by_cases h : c = sep
    · simp [h]
    · cases hs : cs.splitOnP (· == sep) with
      | nil => exact absurd hs (List.splitOnP_ne_nil _ cs)
      | cons piece pieces => simp [h]

theorem not_mem_of_mem_splitChars {cs piece : List Char} (h : piece ∈ splitChars sep cs) :
    sep ∉ piece := by
  induction cs generalizing piece with
  | nil =>
    rw [splitChars, List.mem_singleton] at h
    simp [h]
  | cons c cs ih =>
    unfold splitChars at h
    split at h
    · rcases List.mem_cons.mp h with rfl | h
      · exact List.not_mem_nil
      · exact ih h
    · rename_i hc
      cases hs : splitChars sep cs with
      | nil =>
        rw [hs, List.mem_singleton] at h
        simp [h, Ne.symm hc]
      | cons first pieces =>
        rw [hs] at h
        rcases List.mem_cons.mp h with rfl | h
        · have hfirst := ih (hs ▸ List.mem_cons_self)
          simp [Ne.symm hc, hfirst]
        · exact ih (hs ▸ List.mem_cons_of_mem _ h)

theorem split_eq (sep : Char) (s : String) :
    split sep s = (s.toList.splitOn sep).map String.ofList := by
  rw [split, splitChars_eq_splitOn]

theorem split_ne_nil (sep : Char) (s : String) : split sep s ≠ [] := by
  rw [split_eq]
  exact fun h => List.splitOn_ne_nil sep s.toList (List.map_eq_nil_iff.mp h)

/-- No piece holds the separator. -/
theorem not_mem_of_mem_split (h : t ∈ split sep s) : sep ∉ t.toList := by
  obtain ⟨piece, hpiece, rfl⟩ := List.mem_map.mp h
  rw [String.toList_ofList]
  exact not_mem_of_mem_splitChars hpiece

/-- **A text is its pieces with the separator between them.** -/
theorem join_split (hsep : between.toList = [sep]) (s : String) :
    join between (split sep s) = s := by
  have hmap : (split sep s).map String.toList = s.toList.splitOn sep := by
    rw [split_eq, List.map_map]
    exact List.map_id'' (fun _ => String.toList_ofList) _
  refine String.toList_injective ?_
  rw [join, String.toList_intercalate, hmap, hsep]
  exact List.intercalate_splitOn sep

/-- **Joined pieces can be told apart again,** if none holds the separator. -/
theorem split_join (hsep : between.toList = [sep]) (hne : pieces ≠ [])
    (h : ∀ s ∈ pieces, sep ∉ s.toList) : split sep (join between pieces) = pieces := by
  have hsplit : (join between pieces).toList.splitOn sep = pieces.map String.toList := by
    rw [join, String.toList_intercalate, hsep]
    refine List.splitOn_intercalate sep (fun l hl => ?_) (fun h => hne (List.map_eq_nil_iff.mp h))
    obtain ⟨s, hs, rfl⟩ := List.mem_map.mp hl
    exact h s hs
  rw [split_eq, hsplit, List.map_map]
  exact List.map_id'' (fun _ => String.ofList_toList) _

theorem split_append (hsep : between.toList = [sep]) (s t : String) :
    split sep (s ++ between ++ t) = split sep s ++ split sep t := by
  have h : (s ++ between ++ t).toList = s.toList ++ sep :: t.toList := by simp [hsep]
  rw [split_eq, h, List.splitOn_append_cons_self, List.map_append, ← split_eq, ← split_eq]

/-- What stands in joined pieces stands between them or in one of them. -/
theorem mem_join {c : Char} (hc : c ∈ (join between pieces).toList) :
    c ∈ between.toList ∨ ∃ s ∈ pieces, c ∈ s.toList := by
  induction pieces with
  | nil => simp [join] at hc
  | cons s pieces ih =>
    cases pieces with
    | nil => exact .inr ⟨s, List.mem_cons_self, by simpa [join] using hc⟩
    | cons s' pieces =>
      rw [join, String.intercalate_cons_cons] at hc
      simp only [String.toList_append, List.mem_append] at hc
      rcases hc with (hc | hc) | hc
      · exact .inr ⟨s, List.mem_cons_self, hc⟩
      · exact .inl hc
      · exact (ih hc).imp_right fun ⟨t, ht, hct⟩ => ⟨t, List.mem_cons_of_mem _ ht, hct⟩

end Text
end Moniker
