/-
# Timestamps that sort by time

A timestamp has every number at its full width, as in `2024-03-01T10:00:00.500000000Z`.
Two timestamps are in the order of their times (`Instant.stamp_le_iff`):

| step | lemma |
| --- | --- |
| a later day has a later date | `Date.before_ofDays` |
| the numbers of a later time are lexicographically greater | `Instant.fields_lt` |
| a text of numbers at full width is in the order of its numbers | `fixedText_lt` |

A timestamp is read as the instant it was written for (`Instant.parse?_stamp`).

The years must have four digits: `10000` is before `9999` as a text.
-/

import Moniker.Proofs.Calendar

namespace Moniker

/-! ### Numbers at full width -/

section Padded

variable {w m n : Nat}

theorem toList_padded (w n : Nat) : (padded w n).toList =
    List.replicate (w - (Nat.toDigits 10 n).length) '0' ++ Nat.toDigits 10 n := by
  rw [padded, String.toList_append, String.toList_ofList, ← String.length_toList,
    Nat.toString_eq_repr, Nat.toList_repr]

theorem toList_padded_one (hn : n < 10) : (padded 1 n).toList = [n.digitChar] := by
  rw [toList_padded, Nat.toDigits_of_lt_base hn]
  rfl

/-- The last digit comes after the number without it. -/
theorem toList_padded_succ (hw : 0 < w) (n : Nat) :
    (padded (w + 1) n).toList = (padded w (n / 10)).toList ++ [(n % 10).digitChar] := by
  rw [toList_padded, toList_padded]
  by_cases hn : n < 10
  · obtain ⟨v, rfl⟩ : ∃ v, w = v + 1 := ⟨w - 1, by omega⟩
    rw [Nat.div_eq_of_lt hn, Nat.mod_eq_of_lt hn, Nat.toDigits_of_lt_base hn,
      Nat.toDigits_of_lt_base (by decide), List.append_left_inj]
    exact List.replicate_succ'
  · rw [Nat.toDigits_of_base_le (by decide) (Nat.le_of_not_lt hn), List.length_append,
      List.length_singleton, Nat.add_sub_add_right, List.append_assoc]

theorem length_padded (hw : 0 < w) (hn : n < 10 ^ w) : (padded w n).toList.length = w := by
  have hlen := (Nat.length_toDigits_le_iff (by decide) hw).mpr hn
  rw [toList_padded, List.length_append, List.length_replicate]
  omega

theorem digitChar_lt (hmn : m < n) (hn : n < 10) : m.digitChar < n.digitChar := by
  rw [Char.lt_def, UInt32.lt_iff_toNat_lt]
  change m.digitChar.toNat < n.digitChar.toNat
  rw [Nat.toNat_digitChar_of_lt_ten hn, Nat.toNat_digitChar_of_lt_ten (Nat.lt_trans hmn hn)]
  omega

end Padded

/-- Texts whose beginnings have one length are compared by them first. -/
theorem append_lt_append {a b c d : List Char} (hlen : a.length = b.length)
    (h : a < b ∨ a = b ∧ c < d) : a ++ c < b ++ d := by
  induction a generalizing b with
  | nil =>
    obtain rfl : b = [] := List.length_eq_zero_iff.mp hlen.symm
    exact h.elim (fun h => absurd h (List.lt_irrefl [])) And.right
  | cons x xs ih =>
    obtain ⟨y, ys, rfl⟩ : ∃ y ys, b = y :: ys := List.exists_cons_of_length_eq_add_one hlen.symm
    rw [List.cons_append, List.cons_append, List.cons_lt_cons_iff]
    rw [List.cons_lt_cons_iff, List.cons.injEq] at h
    have hlen' : xs.length = ys.length := Nat.succ.inj hlen
    obtain (hlt | ⟨rfl, hlt⟩) | ⟨⟨rfl, rfl⟩, hlt⟩ := h
    · exact .inl hlt
    · exact .inr ⟨rfl, ih hlen' (.inl hlt)⟩
    · exact .inr ⟨rfl, ih hlen' (.inr ⟨rfl, hlt⟩)⟩

theorem padded_lt {w m n : Nat} (hw : 0 < w) (hmn : m < n) (hn : n < 10 ^ w) :
    (padded w m).toList < (padded w n).toList := by
  induction w, hw using Nat.le_induction generalizing m n with
  | base =>
    rw [toList_padded_one (Nat.lt_trans hmn hn), toList_padded_one hn, List.cons_lt_cons_iff]
    exact .inl (digitChar_lt hmn hn)
  | succ w hw ih =>
    have hw' : 0 < w := hw
    rw [toList_padded_succ hw', toList_padded_succ hw']
    have hn' : n / 10 < 10 ^ w := by rw [Nat.pow_succ] at hn; omega
    have hm' : m / 10 < 10 ^ w := by omega
    refine append_lt_append ?_ ?_
    · rw [length_padded hw' hm', length_padded hw' hn']
    · obtain hlt | heq : m / 10 < n / 10 ∨ m / 10 = n / 10 := by omega
      · exact .inl (ih hlt hn')
      · refine .inr ⟨by rw [heq], ?_⟩
        rw [List.cons_lt_cons_iff]
        exact .inl (digitChar_lt (by omega) (by omega))

/-! ### Texts of numbers at full width -/

/-- Numbers, each at a width and with a mark after it. -/
def fixedText : List (Nat × String) → List Nat → List Char
  | (w, mark) :: layout, n :: ns => (padded w n).toList ++ (mark.toList ++ fixedText layout ns)
  | _, _ => []

/-- Every number has a width that it does not exceed. -/
abbrev FitsLayout (layout : List (Nat × String)) (ns : List Nat) : Prop :=
  List.Forall₂ (fun field n => 0 < field.1 ∧ n < 10 ^ field.1) layout ns

/-- **Texts at full width are in the order of their numbers.** -/
theorem fixedText_lt {layout : List (Nat × String)} {ms ns : List Nat}
    (hm : FitsLayout layout ms) (hn : FitsLayout layout ns) (h : ms < ns) :
    fixedText layout ms < fixedText layout ns := by
  induction hm generalizing ns with
  | nil =>
    cases hn
    exact absurd h (List.lt_irrefl [])
  | @cons field m _ ms hfit _ ih =>
    cases hn with
    | @cons _ n _ ns hfit' hfits' =>
      obtain ⟨hw, hm⟩ := hfit
      obtain ⟨-, hn⟩ := hfit'
      refine append_lt_append (by rw [length_padded hw hm, length_padded hw hn]) ?_
      obtain hlt | ⟨rfl, hlt⟩ := List.cons_lt_cons_iff.mp h
      · exact .inl (padded_lt hw hlt hn)
      · exact .inr ⟨rfl, List.append_left_lt (ih hfits' hlt)⟩

/-! ### Timestamps -/

namespace Instant

/-- An instant in universal time with all nine digits of its fraction. -/
def stamp (t : Instant) : String :=
  t.utc.clockText "T" ++ "." ++ padded 9 t.nanos ++ t.utc.offsetText

/-- Is it an instant of the years zero to 9999? -/
structure InEra (t : Instant) : Prop where
  year : 0 ≤ t.utc.clock.1.year ∧ t.utc.clock.1.year < 10000
  nanos : t.nanos < 1000000000

/-- The numbers of a timestamp. -/
def fields (t : Instant) : List Nat :=
  let (d, s) := t.utc.clock
  [d.year.natAbs, d.month, d.day, s / 3600, s / 60 % 60, s % 60, t.nanos]

/-- The widths of the numbers of a timestamp. -/
def stampLayout : List (Nat × String) :=
  [(4, "-"), (2, "-"), (2, "T"), (2, ":"), (2, ":"), (2, "."), (9, "Z")]

variable {a b t : Instant}

theorem toList_stamp (h : t.InEra) : t.stamp.toList = fixedText stampLayout t.fields := by
  have hyear : showYear t.utc.clock.1.year = padded 4 t.utc.clock.1.year.natAbs :=
    if_neg (Int.not_lt.mpr h.year.1)
  simp only [stamp, clockText, hyear, stampLayout, fields, fixedText, String.toList_append,
    List.append_assoc, List.append_nil]
  rfl

theorem clock_utc (t : Instant) :
    t.utc.clock = (Date.ofDays (t.seconds / 86400), (t.seconds % 86400).toNat) := by
  simp (disch := decide) only [clock, utc, Int.add_zero, Int.fdiv_eq_ediv_of_nonneg,
    Int.fmod_eq_emod_of_nonneg]

theorem fitsLayout_fields (h : t.InEra) : FitsLayout stampLayout t.fields := by
  obtain ⟨hyear, hnanos⟩ := h
  unfold fields stampLayout
  rw [clock_utc] at hyear ⊢
  have hdate := Date.ofDays_bounds (t.seconds / 86400)
  simp only [FitsLayout, List.forall₂_cons, List.Forall₂.nil, and_true]
  dsimp only at hyear
  omega

theorem le_iff : a.le b = true ↔
    a.seconds < b.seconds ∨ a.seconds = b.seconds ∧ a.nanos ≤ b.nanos := by
  rw [le, Bool.or_eq_true, Bool.and_eq_true, decide_eq_true_iff, decide_eq_true_iff,
    decide_eq_true_iff]

/-- The numbers of a later time are lexicographically greater. -/
theorem fields_lt (ha : a.InEra) (hb : b.InEra) (h : ¬ b.le a = true) : a.fields < b.fields := by
  have hyear := ha.year
  have hyear' := hb.year
  rw [le_iff] at h
  unfold fields
  rw [clock_utc] at hyear hyear' ⊢
  rw [clock_utc]
  dsimp only at hyear hyear'
  simp only [List.cons_lt_cons_iff, List.lt_irrefl, and_false, or_false]
  by_cases hday : a.seconds / 86400 < b.seconds / 86400
  · have hdate := Date.before_ofDays hday
    unfold Date.Before at hdate
    omega
  · have heq : a.seconds / 86400 = b.seconds / 86400 := by omega
    rw [heq]
    omega

theorem stamp_lt (ha : a.InEra) (hb : b.InEra) (h : ¬ b.le a = true) : a.stamp < b.stamp := by
  rw [String.lt_iff_toList_lt, toList_stamp ha, toList_stamp hb]
  exact fixedText_lt (fitsLayout_fields ha) (fitsLayout_fields hb) (fields_lt ha hb h)

/-- The same time has the same text, whatever the clock it was read from. -/
theorem stamp_congr (hab : a.le b = true) (hba : b.le a = true) : a.stamp = b.stamp := by
  rw [le_iff] at hab hba
  have hseconds : a.seconds = b.seconds := by omega
  have hnanos : a.nanos = b.nanos := by omega
  have hutc : a.utc = b.utc := by rw [utc, utc, hseconds, hnanos]
  rw [stamp, stamp, hutc, hnanos]

/-- **Timestamps are in the order of their times.** -/
theorem stamp_le_iff (ha : a.InEra) (hb : b.InEra) : a.stamp ≤ b.stamp ↔ a.le b = true := by
  constructor
  · intro hle
    by_contra hnot
    exact not_lt_of_ge hle (stamp_lt hb ha hnot)
  · intro hab
    by_cases hba : b.le a = true
    · exact le_of_eq (stamp_congr hab hba)
    · exact le_of_lt (stamp_lt ha hb hba)

/-! ### Timestamps read back -/

variable {w n : Nat}

/-- The number that digits spell. -/
def valueOf (ds : List Char) : Nat := ds.foldl (fun n d => 10 * n + (d.toNat - 0x30)) 0

/-- A number at full width consists of digits that spell it. -/
theorem digits_padded (hw : 0 < w) (hn : n < 10 ^ w) :
    (padded w n).toList.all Char.isDigit = true ∧ valueOf (padded w n).toList = n := by
  have hdigit {k : Nat} (hk : k < 10) :
      k.digitChar.isDigit = true ∧ k.digitChar.toNat - 0x30 = k := by
    rw [Nat.isDigit_digitChar, Nat.toNat_digitChar_of_lt_ten hk]
    exact ⟨decide_eq_true hk, by omega⟩
  induction w, hw using Nat.le_induction generalizing n with
  | base =>
    obtain ⟨hchar, hvalue⟩ := hdigit hn
    rw [toList_padded_one hn, valueOf, List.all_cons, hchar, List.foldl_cons, hvalue]
    exact ⟨rfl, by rw [List.foldl_nil]; omega⟩
  | succ w hw ih =>
    obtain ⟨hall, hvalue⟩ := ih (show n / 10 < 10 ^ w by rw [Nat.pow_succ] at hn; omega)
    obtain ⟨hchar, hlast⟩ := hdigit (Nat.mod_lt n (show 0 < 10 by decide))
    rw [toList_padded_succ hw, valueOf, List.all_append, hall, List.all_cons, hchar,
      List.foldl_append, ← valueOf, hvalue, List.foldl_cons, hlast]
    exact ⟨rfl, by rw [List.foldl_nil]; omega⟩

theorem digits?_padded (hw : 0 < w) (hn : n < 10 ^ w) (rest : List Char) :
    digits? w ((padded w n).toList ++ rest) = some (n, rest) := by
  obtain ⟨hall, hvalue⟩ := digits_padded hw hn
  have hlen := length_padded hw hn
  rw [digits?, List.take_left' hlen, List.drop_left' hlen, hlen, hall, ← valueOf, hvalue]
  simp only [decide_true, Bool.and_self, if_true]

theorem fraction?_padded (hn : n < 1000000000) :
    fraction? ('.' :: ((padded 9 n).toList ++ ['Z'])) = some (n, ['Z']) := by
  have hlen : (padded 9 n).toList.length = 9 := length_padded (by decide) hn
  obtain ⟨hall, hvalue⟩ := digits_padded (w := 9) (by decide) hn
  have hdigits : ((padded 9 n).toList ++ ['Z']).takeWhile Char.isDigit = (padded 9 n).toList := by
    rw [List.takeWhile_append_of_pos (List.all_eq_true.mp hall)]
    exact List.append_nil _
  have hsome : (padded 9 n).toList.isEmpty = false := by
    rw [List.isEmpty_eq_false_iff, ← List.length_pos_iff, hlen]
    decide
  have hdot (rest : List Char) : fraction? ('.' :: rest) =
      if (rest.takeWhile Char.isDigit).isEmpty then none
      else some (valueOf ((rest.takeWhile Char.isDigit ++ List.replicate 9 '0').take 9),
        rest.drop (rest.takeWhile Char.isDigit).length) := rfl
  rw [hdot, hdigits, hsome, hlen, List.drop_left' hlen, List.take_left' hlen, hvalue]
  rfl

/-- The characters of a timestamp. -/
theorem toList_stamp_eq (h : t.InEra) {d : Date} {s : Nat} (hclock : t.utc.clock = (d, s)) :
    t.stamp.toList = (padded 4 d.year.natAbs).toList ++ '-' :: ((padded 2 d.month).toList ++
      '-' :: ((padded 2 d.day).toList ++ 'T' :: ((padded 2 (s / 3600)).toList ++
      ':' :: ((padded 2 (s / 60 % 60)).toList ++ ':' :: ((padded 2 (s % 60)).toList ++
      '.' :: ((padded 9 t.nanos).toList ++ ['Z'])))))) := by
  have hmarks : "-".toList = ['-'] ∧ "T".toList = ['T'] ∧ ":".toList = [':'] ∧
      ".".toList = ['.'] ∧ "Z".toList = ['Z'] := by decide
  rw [toList_stamp h, fields, hclock]
  simp only [stampLayout, fixedText, hmarks, List.singleton_append, List.append_nil]

/-- Reading goes on with what the first step leaves. -/
theorem bind_eq_of_eq_some {α β : Type} {x : Option α} {f : α → Option β} {a : α} {r : Option β}
    (hx : x = some a) (hf : f a = r) : x >>= f = r := by
  rw [hx]
  exact hf

/-- **A timestamp is read as the instant it was written for.** -/
theorem parse?_stamp (h : t.InEra) : parse? t.stamp = some t.utc := by
  have hyear := h.year
  have htext := toList_stamp_eq h (clock_utc t)
  rw [clock_utc] at hyear
  dsimp only at hyear
  have hdays := Date.toDays_ofDays (t.seconds / 86400)
  have hvalid := Date.isValid_ofDays (t.seconds / 86400)
  have hbounds := Date.ofDays_bounds (t.seconds / 86400)
  generalize Date.ofDays (t.seconds / 86400) = d at *
  generalize hs : (t.seconds % 86400).toNat = s at *
  have hfour (rest : List Char) : digits? 4 ((padded 4 d.year.natAbs).toList ++ rest) =
      some (d.year.natAbs, rest) := digits?_padded (by decide) (by omega) rest
  have htwo {n : Nat} (hn : n < 100) (rest : List Char) :
      digits? 2 ((padded 2 n).toList ++ rest) = some (n, rest) := digits?_padded (by decide) hn rest
  have hmark (c : Char) (rest : List Char) : mark? c (c :: rest) = some rest := if_pos rfl
  have hzone : offset? ['Z'] = some (0, []) := rfl
  -- The numbers and marks are read one after the other.
  unfold parse?
  rw [htext]
  refine bind_eq_of_eq_some (hfour _) ?_
  refine bind_eq_of_eq_some (hmark '-' _) ?_
  refine bind_eq_of_eq_some (htwo (by omega) _) ?_
  refine bind_eq_of_eq_some (hmark '-' _) ?_
  refine bind_eq_of_eq_some (htwo (by omega) _) ?_
  refine bind_eq_of_eq_some (hmark 'T' _) ?_
  refine bind_eq_of_eq_some (htwo (by omega) _) ?_
  refine bind_eq_of_eq_some (hmark ':' _) ?_
  refine bind_eq_of_eq_some (htwo (by omega) _) ?_
  refine bind_eq_of_eq_some (hmark ':' _) ?_
  refine bind_eq_of_eq_some (htwo (by omega) _) ?_
  refine bind_eq_of_eq_some (fraction?_padded h.nanos) ?_
  refine bind_eq_of_eq_some hzone ?_
  -- They are those of a date and a time of day, and what they stand for are the seconds.
  have hdate : Date.mk (d.year.natAbs : Int) d.month d.day = d := by
    rw [Int.natAbs_of_nonneg hyear.1]
  have hseconds : d.toDays * 86400 + (s / 3600 : Nat) * 3600 + (s / 60 % 60 : Nat) * 60 +
      (s % 60 : Nat) - 0 = t.seconds := by omega
  dsimp only
  rw [hdate, hseconds, hvalid, decide_eq_true (show s / 3600 < 24 by omega),
    decide_eq_true (show s / 60 % 60 < 60 by omega), decide_eq_true (show s % 60 < 60 by omega)]
  rfl

end Instant
end Moniker
