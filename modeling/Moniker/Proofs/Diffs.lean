/-
# What a diff tells

The lines of a diff with one of the two marks, or none, are the lines of one of the two texts
(`Text.determinesBoth_diff`), because what is marked is what stands around a shared run, and
the run stands between that in both.

The run is a longest one.  A row holds how long a run ends at each line of the second text, so
no run that ends there is longer (`Text.length_le_longestCommon`), and behind all rows the best
one is as long as the longest in any of them.
-/

import Moniker.Proofs.Pieces
import Moniker.Text.Diff
import Mathlib

namespace Moniker
namespace Text

variable {as bs old new : List String} {lengths : List Nat} {i n : Nat}
  {best run : CommonRun}

/-! ### The longest run -/

/-- Lines that are the same at the front are counted. -/
theorem le_sharedHead (h : as.take n = bs.take n) (hle : n ≤ as.length) : n ≤ sharedHead as bs := by
  induction n generalizing as bs with
  | zero => exact Nat.zero_le _
  | succ n ih =>
    cases as with
    | nil => exact nomatch hle
    | cons a as =>
      cases bs with
      | nil => exact nomatch h
      | cons b bs =>
        rw [List.take_succ_cons, List.take_succ_cons] at h
        obtain ⟨rfl, hrest⟩ := List.cons.inj h
        rw [sharedHead_cons, if_pos rfl]
        exact Nat.succ_le_succ (ih hrest (Nat.le_of_succ_le_succ hle))

/-- Behind a row, the best run is as long as the best one before and as any in the row. -/
theorem le_bestOfRow (i : Nat) (lengths : List Nat) (best : CommonRun) :
    best.length ≤ (bestOfRow i lengths best).length ∧
      ∀ n j : Nat, lengths[j]? = some n → n ≤ (bestOfRow i lengths best).length := by
  suffices hall : best.length ≤ (bestOfRow i lengths best).length ∧
      ∀ entry ∈ lengths.zipIdx, entry.1 ≤ (bestOfRow i lengths best).length from
    ⟨hall.1, fun n j hn => hall.2 (n, j) (List.mem_zipIdx_iff_getElem?.mpr hn)⟩
  unfold bestOfRow
  generalize lengths.zipIdx = entries
  induction entries generalizing best with
  | nil => exact ⟨Nat.le_refl _, fun _ h => nomatch h⟩
  | cons entry entries ih =>
    obtain ⟨m, k⟩ := entry
    rw [List.foldl_cons]
    dsimp only
    by_cases hlt : best.length < m
    · rw [if_pos hlt]
      obtain ⟨hm, hrest⟩ := ih ⟨i + 1 - m, k + 1 - m, m⟩
      exact ⟨Nat.le_trans (Nat.le_of_lt hlt) hm, List.forall_mem_cons.mpr ⟨hm, hrest⟩⟩
    · rw [if_neg hlt]
      obtain ⟨hbest, hrest⟩ := ih best
      exact ⟨hbest, List.forall_mem_cons.mpr
        ⟨Nat.le_trans (Nat.le_of_not_lt hlt) hbest, hrest⟩⟩

/-- **Nothing longer has been passed over.**  `more` is what is read of the first list after
`read`. -/
theorem le_longestFrom (new read rest : List String) (best : CommonRun) :
    best.length ≤ (longestFrom new read.length rest (sharedRow read [] new) best).length ∧
      ∀ more post, rest = more ++ post → more ≠ [] → ∀ j < new.length,
        sharedHead (more.reverse ++ read) (new.take (j + 1)).reverse ≤
          (longestFrom new read.length rest (sharedRow read [] new) best).length := by
  induction rest generalizing read best with
  | nil =>
    refine ⟨Nat.le_refl _, fun more post h hne => ?_⟩
    exact absurd (List.append_eq_nil_iff.mp h.symm).1 hne
  | cons line rest ih =>
    rw [longestFrom, runRow_sharedRow]
    obtain ⟨hbest, hrow⟩ := le_bestOfRow read.length (sharedRow (line :: read) [] new) best
    obtain ⟨hstep, hrest⟩ := ih (line :: read)
      (bestOfRow read.length (sharedRow (line :: read) [] new) best)
    refine ⟨Nat.le_trans hbest hstep, fun more post h hne j hj => ?_⟩
    obtain ⟨first, more, rfl⟩ := List.exists_cons_of_ne_nil hne
    obtain ⟨rfl, hpost⟩ := List.cons.inj h
    rw [List.reverse_cons, List.append_assoc, List.singleton_append]
    by_cases hmore : more = []
    · -- The run ends in this row.
      subst hmore
      refine Nat.le_trans (hrow _ j ?_) hstep
      rw [getElem?_sharedRow, if_pos hj, List.append_nil]
      rfl
    · exact hrest more post hpost hmore j hj

/-- The last lines before the end of a run are the run, in reverse. -/
theorem take_reverse_take (h : i + n ≤ old.length) :
    (old.take (i + n)).reverse.take n = ((old.drop i).take n).reverse := by
  have hlength : (old.take (i + n)).length - n = i := by
    rw [List.length_take, Nat.min_eq_left h, Nat.add_sub_cancel]
  rw [List.take_reverse, hlength, List.drop_take, Nat.add_sub_cancel_left]

/-- **No shared run is longer.** -/
theorem length_le_longestCommon (h : IsShared old new run) :
    run.length ≤ (longestCommon old new).length := by
  have hleft := h.left_le
  have hright := h.right_le
  rcases Nat.eq_zero_or_pos run.length with hzero | hpos
  · exact hzero ▸ Nat.zero_le _
  · obtain ⟨-, hall⟩ := le_longestFrom new [] old {}
    rw [sharedRow_nil] at hall
    have hlength : (old.take (run.left + run.length)).length = run.left + run.length := by
      rw [List.length_take, Nat.min_eq_left hleft]
    have hne : old.take (run.left + run.length) ≠ [] := by
      rw [← List.length_pos_iff]
      omega
    have hle := hall _ _ (List.take_append_drop (run.left + run.length) old).symm hne
      (run.right + run.length - 1) (by omega)
    rw [List.append_nil, Nat.sub_add_cancel (by omega)] at hle
    refine Nat.le_trans (le_sharedHead ?_ ?_) hle
    · rw [take_reverse_take hleft, take_reverse_take hright, h.same]
    · rw [List.length_reverse, hlength]
      exact Nat.le_add_left _ _

/-! ### The two sides -/

/-- The line without its mark, if it is the one given or none. -/
def unmark? (mark : Char) (line : String) : Option String :=
  match line.toList with
  | [] => none
  | c :: rest => if c = mark ∨ c = ' ' then some (String.ofList rest) else none

/-- The lines of a diff with a mark, or with none. -/
def side (mark : Char) (d : String) : String :=
  join "\n" ((split '\n' d).filterMap (unmark? mark))

/-- What a diff of two lists goes on with. -/
inductive Around : List String × List String → List String × List String → Prop
  | before {old new : List String} : (longestCommon old new).length ≠ 0 →
      Around (old.take (longestCommon old new).left, new.take (longestCommon old new).right)
        (old, new)
  | behind {old new : List String} : (longestCommon old new).length ≠ 0 →
      Around (old.drop ((longestCommon old new).left + (longestCommon old new).length),
        new.drop ((longestCommon old new).right + (longestCommon old new).length)) (old, new)

/-- **A diff comes to an end:** what is around a run is shorter. -/
theorem wellFounded_around : WellFounded Around := by
  refine Subrelation.wf (fun {p q} h => ?_) (measure fun p => p.1.length).wf
  show p.1.length < q.1.length
  cases h with
  | @before old new hne | @behind old new hne =>
    have hle := (isShared_longestCommon old new).left_le
    simp only [List.length_take, List.length_drop]
    omega

theorem unmark?_append (mark c : Char) (s line : String) (hs : s.toList = [c]) :
    unmark? mark (s ++ line) = if c = mark ∨ c = ' ' then some line else none := by
  rw [unmark?, String.toList_append, hs, List.singleton_append]
  dsimp only
  rw [String.ofList_toList]

theorem filterMap_unmark?_map {mark c : Char} {s : String} (hs : s.toList = [c])
    (lines : List String) : (lines.map (s ++ ·)).filterMap (unmark? mark) =
      if c = mark ∨ c = ' ' then lines else [] := by
  have hunmark : (unmark? mark ∘ (s ++ ·)) = fun line =>
      if c = mark ∨ c = ' ' then some line else none :=
    funext fun line => unmark?_append mark c s line hs
  rw [List.filterMap_map, hunmark]
  split
  · exact List.filterMap_some
  · exact List.filterMap_eq_nil_iff.mpr fun _ _ => rfl

theorem split_around (lines : List String) (i n : Nat) :
    lines.take i ++ (lines.drop i).take n ++ lines.drop (i + n) = lines := by
  rw [List.append_assoc, ← List.drop_drop, List.take_append_drop, List.take_append_drop]

/-- **The lines of a diff with one mark, or none, are those of one list.** -/
theorem filterMap_diffLines (old new : List String) :
    (diffLines old new).filterMap (unmark? '-') = old ∧
      (diffLines old new).filterMap (unmark? '+') = new := by
  have hminus : "-".toList = ['-'] := rfl
  have hplus : "+".toList = ['+'] := rfl
  have hblank : " ".toList = [' '] := rfl
  fun_induction diffLines old new with
  | case1 old new run hzero =>
    simp only [List.filterMap_append, filterMap_unmark?_map hminus, filterMap_unmark?_map hplus]
    simp
  | case2 old new run hne _ _ ihbefore ihbehind =>
    simp only [List.filterMap_append, filterMap_unmark?_map hblank, or_true, if_true]
    rw [ihbefore.1, ihbefore.2, ihbehind.1, ihbehind.2]
    refine ⟨split_around old run.left run.length, ?_⟩
    rw [(isShared_longestCommon old new).same]
    exact split_around new run.right run.length

theorem newline_not_mem_map {s : String} {lines : List String} (hs : '\n' ∉ s.toList)
    (h : ∀ l ∈ lines, '\n' ∉ l.toList) : ∀ l ∈ lines.map (s ++ ·), '\n' ∉ l.toList := by
  intro l hl
  obtain ⟨line, hline, rfl⟩ := List.mem_map.mp hl
  rw [String.toList_append, List.mem_append, not_or]
  exact ⟨hs, h line hline⟩

/-- No line of a diff has a break in it. -/
theorem newline_not_mem_diffLines (old new : List String) (hold : ∀ l ∈ old, '\n' ∉ l.toList)
    (hnew : ∀ l ∈ new, '\n' ∉ l.toList) : ∀ l ∈ diffLines old new, '\n' ∉ l.toList := by
  fun_induction diffLines old new with
  | case1 old new run hzero =>
    exact List.forall_mem_append.mpr
      ⟨newline_not_mem_map (by decide) hold, newline_not_mem_map (by decide) hnew⟩
  | case2 old new run hne _ _ ihbefore ihbehind =>
    have hshared : ∀ l ∈ (old.drop run.left).take run.length, '\n' ∉ l.toList :=
      fun l hl => hold l (List.mem_of_mem_drop (List.mem_of_mem_take hl))
    refine List.forall_mem_append.mpr ⟨List.forall_mem_append.mpr
      ⟨ihbefore ?_ ?_, newline_not_mem_map (by decide) hshared⟩, ihbehind ?_ ?_⟩
    · exact fun l hl => hold l (List.mem_of_mem_take hl)
    · exact fun l hl => hnew l (List.mem_of_mem_take hl)
    · exact fun l hl => hold l (List.mem_of_mem_drop hl)
    · exact fun l hl => hnew l (List.mem_of_mem_drop hl)

theorem split_diff (old new : String) :
    split '\n' (diff old new) = diffLines (split '\n' old) (split '\n' new) := by
  refine split_join rfl (fun hnil => ?_) (newline_not_mem_diffLines _ _
    (fun _ => not_mem_of_mem_split) fun _ => not_mem_of_mem_split)
  have hold := (filterMap_diffLines (split '\n' old) (split '\n' new)).1
  rw [hnil, List.filterMap_nil] at hold
  exact split_ne_nil '\n' old hold.symm

/-- **A diff tells both texts.**  Its lines with a minus sign or none are those of the old text,
its lines with a plus sign or none those of the new one.  What it goes on with, around a shared
run, is smaller, so it ends; and the run is one of both lists, where it says, and none is
longer. -/
theorem determinesBoth_diff :
    (∀ old new, side '-' (diff old new) = old ∧ side '+' (diff old new) = new) ∧
      WellFounded Around ∧
      ∀ old new, IsShared old new (longestCommon old new) ∧
        ∀ run, IsShared old new run → run.length ≤ (longestCommon old new).length := by
  refine ⟨fun old new => ?_, wellFounded_around, fun old new =>
    ⟨isShared_longestCommon old new, fun _ => length_le_longestCommon⟩⟩
  obtain ⟨hold, hnew⟩ := filterMap_diffLines (split '\n' old) (split '\n' new)
  rw [side, side, split_diff, hold, hnew]
  exact ⟨join_split rfl old, join_split rfl new⟩

/-- Two runs of one length that stand crosswise: the diff keeps the one that ends first in the
old text. -/
theorem determinesBoth_diff_crosswise :
    IsShared ["a", "b", "c", "d"] ["c", "d", "a", "b"] ⟨2, 0, 2⟩ ∧
      longestCommon ["a", "b", "c", "d"] ["c", "d", "a", "b"] = ⟨0, 2, 2⟩ ∧
      2 ≤ (longestCommon ["a", "b", "c", "d"] ["c", "d", "a", "b"]).length ∧
      diff "a\nb\nc\nd" "c\nd\na\nb" = "+c\n+d\n a\n b\n-c\n-d" ∧
      side '-' "+c\n+d\n a\n b\n-c\n-d" = "a\nb\nc\nd" := by
  have hshared : IsShared ["a", "b", "c", "d"] ["c", "d", "a", "b"] ⟨2, 0, 2⟩ :=
    ⟨by decide, by decide, by decide⟩
  have hdiff : diff "a\nb\nc\nd" "c\nd\na\nb" = "+c\n+d\n a\n b\n-c\n-d" := by cbv
  obtain ⟨hsides, -, hlongest⟩ := determinesBoth_diff
  refine ⟨hshared, by decide, (hlongest _ _).2 _ hshared, hdiff, ?_⟩
  rw [← hdiff]
  exact (hsides _ _).1

end Text
end Moniker
