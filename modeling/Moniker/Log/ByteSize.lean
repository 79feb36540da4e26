/-
# Sizes in bytes

Source: `slogutil.ParseSize`.

A size is a number with an optional unit, `10MB` or `1.5 gb`.  What is empty,
malformed, negative or not finite counts as zero.
-/

import Moniker.Data.Numeral
import Moniker.Text.Case

namespace Moniker
namespace ByteSize

/-- The units and their bytes. -/
def units : List (String × Float) :=
  [("GB", 1073741824), ("MB", 1048576), ("KB", 1024), ("B", 1)]

/-- Reads a size. -/
def ofText (s : String) : Int :=
  let cs := Text.trim (s.toList.map Text.upperChar)
  let (number, unit) :=
    match units.find? fun u => u.1.toList.isSuffixOf cs with
    | some u => (Text.trim (cs.take (cs.length - u.1.length)), u.2)
    | none => (cs, 1)
  match Numeral.real? number with
  | some x => if x < 0 || !Decimal.isFinite x then 0 else Numeral.word (x * unit)
  | none => 0

end ByteSize
end Moniker
