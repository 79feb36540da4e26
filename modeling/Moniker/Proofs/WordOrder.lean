/-
# The order of short names

The short names are the nonempty words of small letters, each of them once, the shorter
ones first and those of one length in the order of the alphabet
(`orderIsomorphic_minified`).  The last letter of a numeral is told by the remainder, the word
before it by the quotient, so both the words and their order are found by induction along the
quotients.

A machine word has at most fourteen letters (`length_numeral_le`), and none of its steps
overflows, except that nothing comes after the greatest one (`minifiedBytes?_eq_some`).
-/

import Moniker.Naming.Buffer
import Moniker.Proofs.Bytes
import Moniker.Proofs.ShortNames
import Mathlib

namespace Moniker

variable {c : Char} {i j k m n digit : Nat} {s t : List Char}

/-! ### Words of small letters -/

/-- A word of small letters. -/
def SmallWord (cs : List Char) : Prop := ∀ c ∈ cs, 'a' ≤ c ∧ c ≤ 'z'

theorem small_letter (h : digit < 26) : 'a' ≤ letter digit ∧ letter digit ≤ 'z' := by
  have hnat := toNat_letter h
  have ha : 'a'.toNat = 0x61 := rfl
  have hz : 'z'.toNat = 0x7A := rfl
  constructor
  · show 'a'.toNat ≤ (letter digit).toNat
    omega
  · show (letter digit).toNat ≤ 'z'.toNat
    omega

theorem exists_letter (ha : 'a' ≤ c) (hz : c ≤ 'z') : ∃ digit < 26, letter digit = c := by
  have hlow : 0x61 ≤ c.toNat := ha
  have hhigh : c.toNat ≤ 0x7A := hz
  refine ⟨c.toNat - 0x61, by omega, ?_⟩
  rw [letter, Nat.add_sub_cancel' hlow, Char.ofNat_toNat]

theorem letter_lt_letter (h : i < j) (hj : j < 26) : letter i < letter j := by
  have hi := toNat_letter (Nat.lt_trans h hj)
  have hj := toNat_letter hj
  show (letter i).toNat < (letter j).toNat
  omega

/-- A numeral is a word of small letters. -/
theorem smallWord_numeral : ∀ n, SmallWord (numeral n)
  | 0 => by
    rw [numeral_zero]
    exact fun _ h => nomatch h
  | n + 1 => by
    rw [numeral_succ]
    intro c hc
    rcases List.mem_append.mp hc with hc | hc
    · exact smallWord_numeral (n / 26) c hc
    · rw [List.mem_singleton.mp hc]
      exact small_letter (Nat.mod_lt n (by decide))

/-- **Every word of small letters is a numeral.** -/
theorem exists_numeral_eq (h : SmallWord s) : ∃ n, numeral n = s := by
  induction s using List.reverseRecOn with
  | nil => exact ⟨0, numeral_zero⟩
  | append_singleton s c ih =>
    obtain ⟨m, rfl⟩ := ih fun d hd => h d (List.mem_append_left _ hd)
    obtain ⟨ha, hz⟩ := h c (List.mem_append_right _ (List.mem_singleton.mpr rfl))
    obtain ⟨digit, hdigit, rfl⟩ := exists_letter ha hz
    refine ⟨26 * m + digit + 1, ?_⟩
    have hdiv : (26 * m + digit) / 26 = m := by omega
    have hmod : (26 * m + digit) % 26 = digit := by omega
    rw [numeral_succ, hdiv, hmod]

/-! ### Their order -/

theorem lex_append (hlen : s.length = t.length) (h : List.Lex (· < ·) s t) (x y : List Char) :
    List.Lex (· < ·) (s ++ x) (t ++ y) := by
  induction h with
  | nil => exact absurd hlen (by simp)
  | rel hlt => exact .rel hlt
  | cons _ ih => exact .cons (ih (Nat.succ.inj hlen))

/-- Words that are in order stay so if a letter is put at the end of both. -/
theorem shortlex_concat (h : List.Shortlex (· < ·) s t) (c d : Char) :
    List.Shortlex (· < ·) (s ++ [c]) (t ++ [d]) := by
  rcases List.shortlex_def.mp h with hlt | ⟨hlen, hlex⟩
  · refine .of_length_lt ?_
    rw [List.length_append, List.length_append]
    exact Nat.add_lt_add_right hlt 1
  · refine .of_lex ?_ (lex_append hlen hlex [c] [d])
    rw [List.length_append, List.length_append, hlen]
    rfl

/-- **Greater numbers have later numerals.** -/
theorem shortlex_numeral : ∀ {m n : Nat}, m < n → List.Shortlex (· < ·) (numeral m) (numeral n)
  | 0, n + 1, _ => by
    refine .of_length_lt ?_
    rw [numeral_zero, numeral_succ, List.length_append]
    exact Nat.succ_pos _
  | m + 1, n + 1, h => by
    rw [numeral_succ, numeral_succ]
    rcases Nat.lt_or_ge (m / 26) (n / 26) with hdiv | hdiv
    · exact shortlex_concat (shortlex_numeral hdiv) _ _
    · -- The words before the last letters are the same.
      have hsame : m / 26 = n / 26 := by omega
      have hmod : letter (m % 26) < letter (n % 26) :=
        letter_lt_letter (by omega) (Nat.mod_lt n (by decide))
      rw [hsame]
      exact ((List.shortlex_singleton_iff _ _).mpr hmod).append_left _
termination_by _ n => n

theorem shortlex_numeral_iff :
    List.Shortlex (· < ·) (numeral m) (numeral n) ↔ m < n := by
  refine ⟨fun h => ?_, shortlex_numeral⟩
  rcases Nat.lt_trichotomy m n with hlt | rfl | hgt
  · exact hlt
  · exact absurd h (Std.Irrefl.irrefl _)
  · exact absurd h (Std.Asymm.asymm _ _ (shortlex_numeral hgt))

/-! ### Their length -/

/-- Numbers below a power of 26 have no more letters than its exponent. -/
theorem length_numeral_le : ∀ {k n : Nat}, n < 26 ^ k → (numeral n).length ≤ k
  | k, 0, _ => by
    rw [numeral_zero]
    exact Nat.zero_le k
  | 0, n + 1, h => by omega
  | k + 1, n + 1, h => by
    rw [Nat.pow_succ] at h
    have hdiv : n / 26 < 26 ^ k := by omega
    have hle := length_numeral_le hdiv
    rw [numeral_succ, List.length_append]
    exact Nat.succ_le_succ hle

/-! ### Machine words -/

namespace NameBuffer

/-- As long as there is room, a byte is put before what is written. -/
theorem exists_push? {b : NameBuffer} {pos : Nat} (h : b.start = pos + 1) (byte : UInt8) :
    ∃ b', b.push? byte = some b' ∧ b'.start = pos ∧ b'.written = byte :: b.written := by
  have hpos : pos < 16 := by
    have := b.start_le
    omega
  refine ⟨⟨b.bytes.set pos byte, pos, Nat.le_of_lt hpos⟩, ?_, rfl, ?_⟩
  · unfold push?
    split
    · next hzero => omega
    · next p hp =>
      obtain rfl : p = pos := by omega
      rfl
  · have hlt : pos < (b.bytes.toList.set pos byte).length := by simpa using hpos
    rw [written, written, h, Vector.toList_set, List.drop_eq_getElem_cons hlt,
      List.drop_set_of_lt (Nat.lt_succ_self pos), List.getElem_set_self]

end NameBuffer

/-- The bytes of ASCII characters. -/
def bytesOf (cs : List Char) : List UInt8 := cs.map fun c => UInt8.ofNat c.toNat

/-- The last letter of a machine word's numeral. -/
theorem letterByte_eq {w : Int64} (h : w.toInt = m + 1) :
    (0x61 + (w - 1) % 26).toUInt64.toUInt8 = UInt8.ofNat (letter (m % 26)).toNat := by
  have hone : (1 : Int64) ≤ w := Int64.le_iff_toInt_le.mpr (by
    rw [h, Int64.toInt_one]
    omega)
  have hrem : (w - 1) % 26 = Int64.ofNat (m % 26) := by
    have hsub : (w - 1).toInt = m := by
      rw [Int64.toInt_sub_of_le w 1 (by decide) hone, h, Int64.toInt_one, Int.add_sub_cancel]
    rw [← Int64.toInt_inj, Int64.toInt_mod, hsub, Int64.toInt_ofNat_of_lt (by omega)]
    exact Int.ofNat_tmod m 26
  rw [hrem, Int64.toUInt64_add, Int64.toUInt64_ofNat', UInt64.toUInt8_add, UInt64.toUInt8_ofNat',
    toNat_letter (Nat.mod_lt m (by decide)), UInt8.ofNat_add]
  rfl

/-- **A numeral that has room is written.** -/
theorem exists_writeNumeral? {w : Int64} {n : Nat} {b : NameBuffer} (hw : w.toInt = n)
    (hroom : (numeral n).length ≤ b.start) :
    ∃ b', writeNumeral? w b = some b' ∧ b'.written = bytesOf (numeral n) ++ b.written := by
  induction n using Nat.strongRecOn generalizing w b with
  | ind n ih =>
    unfold writeNumeral?
    cases n with
    | zero =>
      have hzero : ¬ 0 < w := fun h => by
        have := Int64.lt_iff_toInt_lt.mp h
        rw [hw] at this
        exact absurd this (lt_irrefl _)
      rw [dif_neg hzero, numeral_zero]
      exact ⟨b, rfl, rfl⟩
    | succ m =>
      have hpos : 0 < w := Int64.lt_iff_toInt_lt.mpr (by
        rw [hw, Int64.toInt_zero]
        omega)
      have hquot : ((w - 1) / 26).toInt = (m / 26 : Nat) := by
        rw [toInt_quotient hpos, hw]
        omega
      rw [numeral_succ, List.length_append, List.length_singleton] at hroom
      obtain ⟨pos, hstart⟩ := Nat.exists_eq_add_of_le' (Nat.le_trans (Nat.le_add_left 1 _) hroom)
      obtain ⟨b₁, hpush, hpos₁, hwritten₁⟩ := NameBuffer.exists_push? hstart
        (0x61 + (w - 1) % 26).toUInt64.toUInt8
      obtain ⟨b₂, hrest, hwritten₂⟩ := ih (m / 26) (by omega) (b := b₁) hquot (by omega)
      refine ⟨b₂, ?_, ?_⟩
      · rw [dif_pos hpos, hpush, Option.bind_some, hrest]
      · rw [hwritten₂, hwritten₁, letterByte_eq hw, numeral_succ, bytesOf, bytesOf, List.map_append,
          List.append_assoc]
        rfl

theorem toList_toUTF8_minified (i : Nat) :
    (minified i).toUTF8.toList = bytesOf (numeral (i + 1)) := by
  rw [minified]
  generalize hs : numeral (i + 1) = s
  have hsmall : SmallWord s := hs ▸ smallWord_numeral (i + 1)
  clear hs
  induction s with
  | nil => exact (Text.toList_eq _).trans rfl
  | cons c s ih =>
    have hz : c.toNat ≤ 0x7A := (hsmall c List.mem_cons_self).2
    rw [Text.toList_toUTF8_ofList_cons (Nat.le_trans hz (by decide)),
      ih fun d hd => hsmall d (List.mem_cons_of_mem c hd)]
    rfl

/-- **The buffer is large enough,** whatever the machine word. -/
theorem minifiedBytes?_eq_some (h : i ≤ 2 ^ 63 - 2) :
    minifiedBytes? (Int64.ofNat i) = some (minified i).toUTF8.toList := by
  have hword : (Int64.ofNat i + 1).toInt = (i + 1 : Nat) := by
    have hsum : Int64.ofNat i + 1 = Int64.ofNat (i + 1) := (Int64.ofNat_add i 1).symm
    rw [hsum, Int64.toInt_ofNat_of_lt (by omega)]
  have hlen : (numeral (i + 1)).length ≤ 14 := length_numeral_le (by omega)
  have hroom : (numeral (i + 1)).length ≤ ({} : NameBuffer).start :=
    Nat.le_trans hlen (by decide)
  obtain ⟨b, hb, hwritten⟩ := exists_writeNumeral? hword hroom
  rw [minifiedBytes?, hb, Option.map_some, hwritten, toList_toUTF8_minified]
  exact congrArg some (List.append_nil _)

/-! ### Both ways -/

theorem bijOn_minified :
    Set.BijOn minified Set.univ {s | s ≠ "" ∧ SmallWord s.toList} := by
  refine ⟨fun i _ => ⟨?_, ?_⟩, fun i _ j _ h => minified_injective h, ?_⟩
  · exact fun h => @NamePool.current_ne_empty { next := i } (String.empty_append.trans h)
  · rw [minified, String.toList_ofList]
    exact smallWord_numeral (i + 1)
  · rintro s ⟨hne, hsmall⟩
    obtain ⟨n, hn⟩ := exists_numeral_eq hsmall
    cases n with
    | zero =>
      rw [numeral_zero] at hn
      exact absurd (String.toList_injective hn.symm) hne
    | succ i =>
      refine ⟨i, trivial, ?_⟩
      rw [minified, hn, String.ofList_toList]

/-- **Numbers and short names are in the same order.**  Every nonempty word of small letters
is the short name of one number; the names of greater numbers come later, the shorter ones
first; and every machine word that has a next one gets its name written within the buffer. -/
theorem orderIsomorphic_minified :
    Set.BijOn minified Set.univ {s | s ≠ "" ∧ SmallWord s.toList} ∧
      (∀ i j, List.Shortlex (· < ·) (minified i).toList (minified j).toList ↔ i < j) ∧
      ∀ i ≤ 2 ^ 63 - 2, minifiedBytes? (Int64.ofNat i) = some (minified i).toUTF8.toList := by
  refine ⟨bijOn_minified, fun i j => ?_, fun i => minifiedBytes?_eq_some⟩
  rw [minified, minified, String.toList_ofList, String.toList_ofList, shortlex_numeral_iff]
  exact Nat.succ_lt_succ_iff

/-- The last machine word that has a next one, whose name has fourteen letters. -/
theorem orderIsomorphic_minified_lastWord :
    2 ^ 63 - 2 ≤ 2 ^ 63 - 2 ∧ minified (2 ^ 63 - 2) = "crpxnlskvljfhg" ∧
      minifiedBytes? (Int64.ofNat (2 ^ 63 - 2)) = some "crpxnlskvljfhg".toUTF8.toList := by
  have hname : minified (2 ^ 63 - 2) = "crpxnlskvljfhg" := by cbv
  refine ⟨le_rfl, hname, ?_⟩
  rw [← hname]
  exact orderIsomorphic_minified.2.2 (2 ^ 63 - 2) le_rfl

end Moniker
