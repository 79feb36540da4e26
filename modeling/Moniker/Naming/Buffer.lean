/-
# Short names in a buffer

Source: `mangler.MinifiedName`.

Where numbers are machine words, a short name is written letter by letter, the last one
first, from the end of a buffer of sixteen bytes.  Writing before the front of the buffer
is a fault.
-/

namespace Moniker

/-- Sixteen bytes, written from the last one backwards. -/
structure NameBuffer where
  bytes : Vector UInt8 16 := Vector.replicate 16 0
  /-- The first byte that is written. -/
  start : Nat := 16
  start_le : start ≤ 16 := by decide

namespace NameBuffer

/-- Writes a byte before those that are written, `none` if they begin at the front. -/
def push? (b : NameBuffer) (byte : UInt8) : Option NameBuffer :=
  match h : b.start with
  | 0 => none
  | pos + 1 =>
    have hpos : pos < 16 := by
      have := b.start_le
      omega
    some { bytes := b.bytes.set pos byte, start := pos, start_le := Nat.le_of_lt hpos }

/-- What is written. -/
def written (b : NameBuffer) : List UInt8 := b.bytes.toList.drop b.start

end NameBuffer

/-- The last letter taken off, a machine word is what the number would be. -/
theorem toInt_quotient {n : Int64} (h : 0 < n) : ((n - 1) / 26).toInt = (n.toInt - 1) / 26 := by
  have hpos : 0 < n.toInt := Int64.lt_iff_toInt_lt.mp h
  have hone : (1 : Int64) ≤ n := Int64.le_iff_toInt_le.mpr hpos
  rw [Int64.toInt_div_of_ne_right _ _ (by decide), Int64.toInt_sub_of_le n 1 (by decide) hone]
  exact Int.tdiv_eq_ediv_of_nonneg (Int.sub_nonneg_of_le hpos)

theorem toNat_quotient_lt {n : Int64} (h : 0 < n) :
    ((n - 1) / 26).toInt.toNat < n.toInt.toNat := by
  have hpos : 0 < n.toInt := Int64.lt_iff_toInt_lt.mp h
  rw [toInt_quotient h]
  generalize n.toInt = k at hpos
  omega

/-- Writes the numeral of a machine word into a buffer, `none` if it has no room there. -/
def writeNumeral? (n : Int64) (b : NameBuffer) : Option NameBuffer :=
  if h : 0 < n then
    (b.push? (0x61 + (n - 1) % 26).toUInt64.toUInt8).bind (writeNumeral? ((n - 1) / 26))
  else some b
termination_by n.toInt.toNat
decreasing_by exact toNat_quotient_lt h

/-- The bytes of the short name of a machine word. -/
def minifiedBytes? (i : Int64) : Option (List UInt8) :=
  (writeNumeral? (i + 1) {}).map NameBuffer.written

end Moniker
