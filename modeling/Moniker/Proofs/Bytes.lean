/-
# The characters that bytes are read as

Bytes are read from the front, a character at a time.  A character takes at least one byte
and never more than there are (`Text.next_bounds`), so the characters of some bytes take all
of them (`Text.widthOf_runes`).  The bytes of a text are read as that text
(`Text.decode_encode`).
-/

import Moniker.Text.Bytes
import Mathlib.Data.List.Basic
import Mathlib.Order.Nat

namespace Moniker
namespace Text

variable {bs : List UInt8} {cs before after : List (Char × Nat)} {c : Char × Nat} {fuel : Nat}

theorem toList_loop (bytes : ByteArray) (i : Nat) (r : List UInt8) :
    ByteArray.toList.loop bytes i r = r.reverse ++ bytes.data.toList.drop i := by
  fun_induction ByteArray.toList.loop bytes i r with
  | case1 i r hi ih =>
    have hlt : i < bytes.data.toList.length := by simpa using hi
    rw [ih, List.drop_eq_getElem_cons hlt]
    simp [ByteArray.get!, hi]
  | case2 i r hi =>
    rw [List.drop_eq_nil_of_le (by simpa using hi), List.append_nil]

theorem toList_eq (bytes : ByteArray) : bytes.toList = bytes.data.toList := by
  rw [ByteArray.toList, toList_loop]
  rfl

theorem length_toList (bytes : ByteArray) : bytes.toList.length = bytes.size := by
  rw [toList_eq, Array.length_toList, ByteArray.size_data]

/-- The first byte of a text that begins with an ASCII character is that character. -/
theorem toList_toUTF8_ofList_cons {ch : Char} (hc : ch.toNat ≤ 127) (cs : List Char) :
    (String.ofList (ch :: cs)).toUTF8.toList =
      UInt8.ofNat ch.toNat :: (String.ofList cs).toUTF8.toList := by
  rw [toList_eq, toList_eq]
  simp [List.utf8Encode, String.utf8EncodeChar, hc]

/-- The bytes of a text are read as that text. -/
@[simp] theorem decode_encode (s : String) : decode (encode s) = s := by
  have hvalid : String.fromUTF8? (encode s) = some s := dif_pos s.isValidUTF8
  rw [decode, hvalid]

/-- The bytes that some characters take. -/
def widthOf : List (Char × Nat) → Nat
  | [] => 0
  | c :: cs => c.2 + widthOf cs

@[simp] theorem widthOf_nil : widthOf [] = 0 := rfl

@[simp] theorem widthOf_cons : widthOf (c :: cs) = c.2 + widthOf cs := rfl

@[simp] theorem widthOf_append : widthOf (before ++ after) = widthOf before + widthOf after := by
  induction before with
  | nil => simp
  | cons c before ih => simp [ih, Nat.add_assoc]

theorem first?_bounds {ch : Char} {w : Nat} (h : first? bs = some (ch, w)) :
    0 < w ∧ w ≤ bs.length := by
  unfold first? at h
  grind [Option.map_eq_some_iff]

/-- A character takes a byte at least, and no more than there are. -/
theorem next_bounds (h : bs ≠ []) : 0 < (next bs).2 ∧ (next bs).2 ≤ bs.length := by
  have hlen := List.length_pos_iff.mpr h
  unfold next
  cases hf : first? bs with
  | none => exact ⟨Nat.one_pos, hlen⟩
  | some step => exact first?_bounds hf

theorem width_pos_of_mem_scan (h : c ∈ scan fuel bs) : 0 < c.2 := by
  induction fuel generalizing bs with
  | zero => exact nomatch h
  | succ fuel ih =>
    cases bs with
    | nil => exact nomatch h
    | cons b rest =>
      rcases List.mem_cons.mp h with rfl | h
      · exact (next_bounds (List.cons_ne_nil b rest)).1
      · exact ih h

theorem widthOf_scan (h : bs.length ≤ fuel) : widthOf (scan fuel bs) = bs.length := by
  induction fuel generalizing bs with
  | zero => simp [scan, List.length_eq_zero_iff.mp (Nat.le_zero.mp h)]
  | succ fuel ih =>
    cases bs with
    | nil => rfl
    | cons b rest =>
      obtain ⟨hpos, hle⟩ := next_bounds (List.cons_ne_nil b rest)
      have hrest : ((b :: rest).drop (next (b :: rest)).2).length ≤ fuel := by
        rw [List.length_drop]
        omega
      rw [scan, widthOf_cons, ih hrest, List.length_drop]
      omega

theorem width_pos_of_mem_runes (h : c ∈ runes bs) : 0 < c.2 := width_pos_of_mem_scan h

/-- **The characters of a text take all its bytes.** -/
theorem widthOf_runes (bs : List UInt8) : widthOf (runes bs) = bs.length := widthOf_scan le_rfl

end Text
end Moniker
