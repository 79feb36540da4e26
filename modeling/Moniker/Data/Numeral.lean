/-
# Numerals

Numbers as they are written in source texts.

| form | example |
| --- | --- |
| decimal | `42`, `1_000`, `2.5e3` |
| with a base mark | `0x2A`, `0o52`, `0b101010`, `052` |
| hexadecimal with a binary exponent | `0x1.8p3` |

An underscore may stand between two digits or after a base mark.
-/

import Moniker.Data.Json

namespace Moniker
namespace Numeral

/-- Does every underscore stand between two digits? -/
def separates (isDigit : Char → Bool) : Char → List Char → Bool
  | _, [] => true
  | before, c :: rest =>
    if c = '_' then isDigit before && (rest.head?.any isDigit) && separates isDigit c rest
    else separates isDigit c rest

/-- Is the character a hexadecimal digit? -/
def isHexDigit (c : Char) : Bool := (Json.hexValue? c).isSome

/-- The digits of a text without the underscores between them, if they are well placed. -/
def digits? (isDigit : Char → Bool) (before : Char) (cs : List Char) : Option (List Char) :=
  if separates isDigit before cs then some (cs.filter (· ≠ '_')) else none

/-- The number that digits stand for in a base. -/
def natOf? (base : Nat) (cs : List Char) : Option Nat :=
  cs.foldlM (fun n c => (Json.hexValue? c).bind fun d =>
    if d < base then some (base * n + d) else none) 0

/-- A whole number without a sign. -/
def unsignedWhole? : List Char → Option Nat
  | '0' :: m :: c :: rest =>
    match m.toLower with
    | 'x' => (digits? isHexDigit '0' (c :: rest)).bind (natOf? 16)
    | 'o' => (digits? Char.isDigit '0' (c :: rest)).bind (natOf? 8)
    | 'b' => (digits? Char.isDigit '0' (c :: rest)).bind (natOf? 2)
    | _ => (digits? Char.isDigit '0' (m :: c :: rest)).bind (natOf? 8)
  | '0' :: rest => (digits? Char.isDigit '0' rest).bind (natOf? 8)
  | [] => none
  | cs => (digits? Char.isDigit 'x' cs).bind (natOf? 10)

/-- The least whole number of a machine word. -/
def leastWord : Int := -9223372036854775808

/-- Does the number fit in a machine word? -/
def fits (n : Int) : Bool := leastWord ≤ n && n < -leastWord

/-- A number with or without a sign, the number itself being read by `read`. -/
def signed? (read : List Char → Option Nat) (s : String) : Option Int :=
  match s.toList with
  | '-' :: cs => (read cs).map fun n => -(n : Int)
  | '+' :: cs => (read cs).map fun n => (n : Int)
  | cs => (read cs).map fun n => (n : Int)

/-- A whole number of any size. -/
def anyWhole? (s : String) : Option Int := signed? unsignedWhole? s

/-- A whole number that fits in a machine word. -/
def whole? (s : String) : Option Int := (anyWhole? s).filter fits

/-- A whole number that fits in a machine word, written with decimal digits only. -/
def plainWhole? (s : String) : Option Int :=
  (signed? (fun cs => if cs.isEmpty then none else
    if cs.all Char.isDigit then natOf? 10 cs else none) s).filter fits

/-- A whole number as a word; what does not fit is the least word. -/
def wordOf (n : Int) : Int := if fits n then n else leastWord

/-- The whole part of a number as a word. -/
def word (x : Float) : Int := wordOf (Decimal.truncate x)

/-- The whole number nearest to another that a double holds: one of 53 binary digits and
zeros after them. Of two that are as near it is the one whose last digit is even. -/
def nearest (n : Nat) : Nat :=
  let unit := Nat.pow 2 (n.log2 - 52)
  let digits := n / unit
  let left := 2 * (n % unit)
  if left < unit ∨ left = unit ∧ digits % 2 = 0 then digits * unit else (digits + 1) * unit

/-- What is left of a whole number that becomes a double and then a word. -/
def held (n : Int) : Int := wordOf (n.sign * nearest n.natAbs)

/-- The digits before and after the point, if there are any, and the rest. -/
def mantissa? (isDigit : Char → Bool) (cs : List Char) :
    Option (List Char × List Char × List Char) :=
  let whole := cs.takeWhile isDigit
  let rest := cs.drop whole.length
  let fraction := if rest.head? = some '.' then rest.tail.takeWhile isDigit else []
  let rest := if rest.head? = some '.' then rest.tail.drop fraction.length else rest
  if whole.isEmpty && fraction.isEmpty then none else some (whole, fraction, rest)

/-- A whole number after an exponent mark, up to the end. -/
def exponent? (cs : List Char) : Option Int :=
  let amount (ds : List Char) : Option Nat :=
    if ds.isEmpty || !ds.all Char.isDigit then none else some (Json.natOf ds)
  match cs with
  | '-' :: ds => (amount ds).map fun n => -(n : Int)
  | '+' :: ds => (amount ds).map fun n => (n : Int)
  | ds => (amount ds).map fun n => (n : Int)

/-- Exponents further out make no difference. -/
def clamp (e : Int) : Int := max (-100000) (min 100000 e)

/-- A number in decimal digits. -/
def decimal? (cs : List Char) : Option Float := do
  let (whole, fraction, rest) ← mantissa? Char.isDigit cs
  let e ← match rest with
    | [] => some 0
    | m :: ds => if m.toLower = 'e' then exponent? ds else none
  return Json.toDouble false (Json.natOf (whole ++ fraction)) (clamp e - fraction.length)

/-- A number in hexadecimal digits, which needs an exponent. -/
def hexadecimal? (cs : List Char) : Option Float := do
  let (whole, fraction, rest) ← mantissa? isHexDigit cs
  let e ← match rest with
    | m :: ds => if m.toLower = 'p' then exponent? ds else none
    | [] => none
  let n ← natOf? 16 (whole ++ fraction)
  return Float.scaleB (Float.ofNat n) (clamp e - 4 * fraction.length)

/-- A number without a sign. -/
def unsignedReal? : List Char → Option Float
  | '0' :: m :: rest =>
    if m.toLower = 'x' then (digits? isHexDigit '0' rest).bind hexadecimal?
    else (digits? Char.isDigit '0' (m :: rest)).bind fun cs => decimal? ('0' :: cs)
  | cs => (digits? Char.isDigit 'x' cs).bind decimal?

/-- A number; the words for what is not finite are not numbers here. -/
def real? : List Char → Option Float
  | '-' :: cs => (unsignedReal? cs).map fun x => -x
  | '+' :: cs => unsignedReal? cs
  | cs => unsignedReal? cs

end Numeral
end Moniker
