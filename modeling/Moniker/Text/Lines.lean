/-
# Lines and columns

Source: `scip.newLineIndex`, `lineIndex.lineEnd`, `lineIndex.offset`,
`lineIndex.position`, `runeUnits`.

A position is a line and a column, both counted from zero.  What a column counts
depends on the unit:

| unit | counts |
| --- | --- |
| bytes | bytes of UTF-8 |
| halves | 16-bit units: two for a character from `U+10000` on, else one |
| characters | characters |

A line ends before its newline.  `offset?` finds the byte a position stands for
and `position` the position of a byte.  A column inside a character stands for the
end of that character.
-/

import Moniker.Text.Bytes

namespace Moniker
namespace Text

/-- What a column counts. -/
inductive ColumnUnit where
  | halves
  | bytes
  | characters
deriving DecidableEq, Inhabited

/-- The name of a unit. -/
def ColumnUnit.name : ColumnUnit → String
  | halves => "utf16"
  | bytes => "utf8"
  | characters => "utf32"

/-- The unit of a name; sixteen bits is the rule. -/
def ColumnUnit.ofName (s : String) : ColumnUnit :=
  if s = "utf8" then .bytes else if s = "utf32" then .characters else .halves

/-- How many columns a character of some width takes. -/
def ColumnUnit.columns (unit : ColumnUnit) (c : Char) (width : Nat) : Nat :=
  match unit with
  | halves => if 0x10000 ≤ c.toNat then 2 else 1
  | bytes => width
  | characters => 1

/-- Splits bytes at newlines. -/
def splitLines : List UInt8 → List (List UInt8)
  | [] => [[]]
  | b :: rest =>
    if b = 0x0A then [] :: splitLines rest
    else
      match splitLines rest with
      | [] => [[b]]
      | line :: lines => (b :: line) :: lines

/-- A line of a text: its first byte and what it holds. -/
structure Line where
  start : Nat
  bytes : List UInt8
deriving Inhabited

/-- Gives lines their places; each ends with a newline. -/
def placeLines : Nat → List (List UInt8) → List Line
  | _, [] => []
  | start, line :: rest => ⟨start, line⟩ :: placeLines (start + line.length + 1) rest

/-- The lines of a text; there is always at least one. -/
def lines (content : ByteArray) : List Line := placeLines 0 (splitLines content.toList)

/-- Walks over characters until `column` columns are passed and returns the bytes
passed, `none` if there are not enough of them. -/
def walkColumns (unit : ColumnUnit) (column : Nat) : List (Char × Nat) → Nat → Nat → Option Nat
  | [], passed, bytes => if column ≤ passed then some bytes else none
  | (c, width) :: rest, passed, bytes =>
    if column ≤ passed then some bytes
    else walkColumns unit column rest (passed + unit.columns c width) (bytes + width)

/-- The byte of a line that a column stands for. -/
def Line.offset? (line : Line) (unit : ColumnUnit) (column : Nat) : Option Nat :=
  match unit with
  | .bytes => if column ≤ line.bytes.length then some (line.start + column) else none
  | _ => (walkColumns unit column (runes line.bytes) 0 0).map (line.start + ·)

/-- The byte a position stands for, `none` if it lies outside the text. -/
def offset? (lines : List Line) (unit : ColumnUnit) (line column : Int) : Option Nat :=
  if line < 0 ∨ column < 0 then none
  else (lines[line.toNat]?).bind fun l => l.offset? unit column.toNat

/-- The columns of the characters that begin before some bytes are passed. -/
def countColumns (unit : ColumnUnit) (bytes : Int) : List (Char × Nat) → Nat → Nat
  | [], _ => 0
  | (c, width) :: rest, passed =>
    if (passed : Int) < bytes then
      unit.columns c width + countColumns unit bytes rest (passed + width)
    else 0

/-- The position of a byte: the last line that begins at or before it, and the
columns up to it. -/
def position (lines : List Line) (unit : ColumnUnit) (offset : Int) : Int × Int :=
  let after := (lines.drop 1).takeWhile fun l => (l.start : Int) ≤ offset
  let line := (lines[after.length]?).getD default
  let bytes := offset - line.start
  match unit with
  | .bytes => (after.length, bytes)
  | _ => (after.length, countColumns unit bytes (runes line.bytes) 0)

end Text
end Moniker
