/-
# Common runs of lines

Source: `testutil.longestCommon`.

The longest run of lines that two lists share, the first of them where there are several.  It
is found line by line of the first list: for each line of the second, how long a shared run
ends there (`runRow`), from the same lengths one line before.

Such a length is that of the lines shared by what has been read of the two lists, counted from
the back (`sharedHead`); so what is found is a run of both lists and lies within them
(`isShared_longestCommon`).
-/

namespace Moniker
namespace Text

/-- A run of lines that two lists share: where it begins in each, and how long it
is. -/
structure CommonRun where
  left : Nat := 0
  right : Nat := 0
  length : Nat := 0
deriving DecidableEq, Inhabited

/-- For each line of `new`, how long a shared run ends there and at `line`, from
the same lengths for the line before. -/
def runRow (line : String) (new : List String) (before : List Nat) : List Nat :=
  List.zipWith (fun other n => if line = other then n + 1 else 0) new (0 :: before)

/-- The longer of the best run so far and those that end in this row; the first
one wins. -/
def bestOfRow (i : Nat) (row : List Nat) (best : CommonRun) : CommonRun :=
  row.zipIdx.foldl (fun best (n, j) =>
    if best.length < n then ⟨i + 1 - n, j + 1 - n, n⟩ else best) best

/-- Goes through the remaining lines of `old`, numbered from `i`. -/
def longestFrom (new : List String) : Nat → List String → List Nat → CommonRun → CommonRun
  | _, [], _, best => best
  | i, line :: rest, before, best =>
    let row := runRow line new before
    longestFrom new (i + 1) rest row (bestOfRow i row best)

/-- The longest run of lines that two lists share. -/
def longestCommon (old new : List String) : CommonRun :=
  longestFrom new 0 old (new.map fun _ => 0) {}

/-- Does a run lie within both lists, with the same lines in both? -/
structure IsShared (old new : List String) (run : CommonRun) : Prop where
  left_le : run.left + run.length ≤ old.length
  right_le : run.right + run.length ≤ new.length
  same : (old.drop run.left).take run.length = (new.drop run.right).take run.length

variable {line : String} {old new read done rest : List String} {row : List Nat} {i j k n : Nat}
  {best : CommonRun}

/-! ### Lines shared at the front -/

/-- How many lines two lists share at the front. -/
def sharedHead : List String → List String → Nat
  | a :: as, b :: bs => if a = b then sharedHead as bs + 1 else 0
  | _, _ => 0

theorem sharedHead_nil_left (bs : List String) : sharedHead [] bs = 0 := by
  cases bs <;> rfl

theorem sharedHead_nil_right (as : List String) : sharedHead as [] = 0 := by
  cases as <;> rfl

theorem sharedHead_cons (a b : String) (as bs : List String) :
    sharedHead (a :: as) (b :: bs) = if a = b then sharedHead as bs + 1 else 0 := rfl

theorem sharedHead_le_left : ∀ as bs : List String, sharedHead as bs ≤ as.length
  | [], bs => Nat.le_of_eq (sharedHead_nil_left bs)
  | a :: as, [] => Nat.zero_le _
  | a :: as, b :: bs => by
    rw [sharedHead_cons]
    split
    · exact Nat.succ_le_succ (sharedHead_le_left as bs)
    · exact Nat.zero_le _

theorem sharedHead_le_right : ∀ as bs : List String, sharedHead as bs ≤ bs.length
  | [], bs => by
    rw [sharedHead_nil_left]
    exact Nat.zero_le _
  | a :: as, [] => Nat.zero_le _
  | a :: as, b :: bs => by
    rw [sharedHead_cons]
    split
    · exact Nat.succ_le_succ (sharedHead_le_right as bs)
    · exact Nat.zero_le _

/-- They are the same in both. -/
theorem take_sharedHead : ∀ as bs : List String,
    as.take (sharedHead as bs) = bs.take (sharedHead as bs)
  | [], bs => by rw [sharedHead_nil_left, List.take_zero, List.take_zero]
  | a :: as, [] => rfl
  | a :: as, b :: bs => by
    rw [sharedHead_cons]
    split
    · next h => rw [List.take_succ_cons, List.take_succ_cons, h, take_sharedHead as bs]
    · rfl

/-! ### Rows -/

/-- For each line of `new`, how many lines before and with it are the last ones read of the
first list.  What has been read, and what stands in front of `new`, is in reverse. -/
def sharedRow (read : List String) : List String → List String → List Nat
  | _, [] => []
  | done, line :: rest => sharedHead read (line :: done) :: sharedRow read (line :: done) rest

theorem sharedRow_nil : sharedRow [] done new = new.map fun _ => 0 := by
  induction new generalizing done with
  | nil => rfl
  | cons line rest ih => rw [sharedRow, sharedHead_nil_left, ih, List.map_cons]

/-- **A row follows from the one before.** -/
theorem zipWith_sharedRow (line : String) (read done new : List String) :
    List.zipWith (fun other n => if line = other then n + 1 else 0) new
      (sharedHead read done :: sharedRow read done new) = sharedRow (line :: read) done new := by
  induction new generalizing done with
  | nil => rfl
  | cons other rest ih => rw [sharedRow, List.zipWith_cons_cons, ih, sharedRow, sharedHead_cons]

theorem runRow_sharedRow (line : String) :
    runRow line new (sharedRow read [] new) = sharedRow (line :: read) [] new := by
  have h := zipWith_sharedRow line read [] new
  rwa [sharedHead_nil_right] at h

theorem getElem?_sharedRow (read done new : List String) (j : Nat) :
    (sharedRow read done new)[j]? = if j < new.length then
      some (sharedHead read ((new.take (j + 1)).reverse ++ done)) else none := by
  induction new generalizing done j with
  | nil => rfl
  | cons line rest ih =>
    cases j with
    | zero => rfl
    | succ j =>
      rw [sharedRow, List.getElem?_cons_succ, ih, List.take_succ_cons, List.reverse_cons,
        List.append_assoc, List.singleton_append, List.length_cons]
      simp only [Nat.succ_lt_succ_iff]

/-! ### The search -/

/-- What holds of the best run so far, and of every run that ends in a row, holds of the best
run behind the row. -/
theorem bestOfRow_induct {P : CommonRun → Prop} (hbest : P best)
    (hrow : ∀ n j, row[j]? = some n → P ⟨i + 1 - n, j + 1 - n, n⟩) : P (bestOfRow i row best) := by
  have hall : ∀ n j, (n, j) ∈ row.zipIdx → P ⟨i + 1 - n, j + 1 - n, n⟩ :=
    fun n j hentry => hrow n j (List.mem_zipIdx_iff_getElem?.mp hentry)
  unfold bestOfRow
  generalize row.zipIdx = entries at hall
  induction entries generalizing best with
  | nil => exact hbest
  | cons entry entries ih =>
    obtain ⟨n, j⟩ := entry
    rw [List.foldl_cons]
    refine ih ?_ fun m k h => hall m k (List.mem_cons_of_mem _ h)
    dsimp only
    split
    · exact hall n j List.mem_cons_self
    · exact hbest

theorem take_drop_reverse (h : n ≤ read.length) :
    ((read.reverse ++ rest).drop (read.length - n)).take n = (read.take n).reverse := by
  have hdrop : read.reverse.drop (read.length - n) = (read.take n).reverse := by
    rw [List.drop_reverse, Nat.sub_sub_self h]
  rw [List.drop_append_of_le_length (by simp), hdrop, List.take_left' (by simp [h])]

/-- What is shared at the end of what has been read is a run of both lists. -/
theorem isShared_sharedHead (read done rest more : List String) :
    IsShared (read.reverse ++ rest) (done.reverse ++ more)
      ⟨read.length - sharedHead read done, done.length - sharedHead read done,
        sharedHead read done⟩ := by
  have hleft := sharedHead_le_left read done
  have hright := sharedHead_le_right read done
  refine ⟨?_, ?_, ?_⟩
  · simp
    omega
  · simp
    omega
  · show ((read.reverse ++ rest).drop (read.length - _)).take _ =
      ((done.reverse ++ more).drop (done.length - _)).take _
    rw [take_drop_reverse hleft, take_drop_reverse hright, take_sharedHead]

theorem isShared_longestFrom (read : List String) (hold : old = read.reverse ++ rest)
    (hbest : IsShared old new best) :
    IsShared old new (longestFrom new read.length rest (sharedRow read [] new) best) := by
  induction rest generalizing read best with
  | nil => exact hbest
  | cons line rest ih =>
    have hold' : old = (line :: read).reverse ++ rest := by simp [hold]
    rw [longestFrom, runRow_sharedRow]
    refine ih (line :: read) hold' (bestOfRow_induct hbest fun n j hentry => ?_)
    rw [getElem?_sharedRow, Option.ite_none_right_eq_some, List.append_nil] at hentry
    obtain ⟨hj, hn⟩ := hentry
    have hlength : (new.take (j + 1)).reverse.length = j + 1 := by
      rw [List.length_reverse, List.length_take]
      omega
    have h := isShared_sharedHead (line :: read) (new.take (j + 1)).reverse rest (new.drop (j + 1))
    rwa [← hold', List.reverse_reverse, List.take_append_drop, hlength, Option.some.inj hn] at h

/-- **What is found is a run of both lists.** -/
theorem isShared_longestCommon (old new : List String) :
    IsShared old new (longestCommon old new) := by
  have hempty : IsShared old new {} := ⟨Nat.zero_le _, Nat.zero_le _, rfl⟩
  have h : IsShared old new (longestFrom new 0 old (sharedRow [] [] new) {}) :=
    isShared_longestFrom [] rfl hempty
  rwa [sharedRow_nil] at h

end Text
end Moniker
