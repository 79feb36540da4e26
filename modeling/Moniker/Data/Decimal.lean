/-
# Floating-point numbers in decimal

A finite double is a sign, a whole number and a power of two.  Its shortest
decimal is the one with the fewest digits among those that round back to it, and
among these the nearest.  `Digits` is such a decimal, without a sign:

    0.d₁d₂…dₙ × 10 ^ point

Two ways to write it are used.

| style | with an exponent |
| --- | --- |
| `plain` | below `1e-6` and from `1e21` on |
| `general` | below `1e-4` and from `1e6` on |

A magnitude that `general` writes with an exponent has at least two digits of it;
`plain` drops a leading zero of a negative one.
-/

namespace Moniker
namespace Decimal

/-- A positive double as `mantissa * 2 ^ exponent`. -/
structure Binary where
  mantissa : Nat
  exponent : Int
deriving DecidableEq, Inhabited

/-- The sign bit of a double. -/
def isNegative (x : Float) : Bool := 0x8000000000000000 ≤ x.toBits.toNat

/-- The magnitude of a finite double. -/
def magnitude (x : Float) : Binary :=
  let bits := x.toBits.toNat % 0x8000000000000000
  let fraction := bits % 0x10000000000000
  let biased := bits / 0x10000000000000
  if biased = 0 then ⟨fraction, -1074⟩
  else ⟨fraction + 0x10000000000000, (biased : Int) - 1075⟩

/-- The decimal `0.d₁d₂…dₙ × 10 ^ point`. -/
structure Digits where
  digits : List Nat
  point : Int
deriving DecidableEq, Inhabited

/-- The decimal digits of a number, at least one. -/
def digitsOf (n : Nat) : List Nat := (Nat.toDigits 10 n).map fun c => c.toNat - 0x30

/-- A fraction of whole numbers. -/
structure Fraction where
  num : Nat
  den : Nat
deriving Inhabited

namespace Fraction

/-- `n * 2 ^ e`. -/
def scaled (n : Nat) (e : Int) : Fraction :=
  if 0 ≤ e then ⟨n * Nat.pow 2 e.toNat, 1⟩ else ⟨n, Nat.pow 2 (-e).toNat⟩

/-- Is one fraction smaller than another? -/
def lt (a b : Fraction) : Bool := a.num * b.den < b.num * a.den

/-- Divides by a power of ten. -/
def shift (a : Fraction) (e : Int) : Fraction :=
  if 0 ≤ e then ⟨a.num, a.den * Nat.pow 10 e.toNat⟩ else ⟨a.num * Nat.pow 10 (-e).toNat, a.den⟩

end Fraction

/-- The reals that round to a double: between the middles to its neighbours, ends
included if its mantissa is even. -/
structure Basin where
  low : Fraction
  value : Fraction
  high : Fraction
  closed : Bool
deriving Inhabited

/-- The basin of a double. Below a power of two the neighbour is nearer. -/
def Basin.of (b : Binary) : Basin :=
  let atPower := b.mantissa = 0x10000000000000 ∧ -1074 < b.exponent
  { low := if atPower then .scaled (4 * b.mantissa - 1) (b.exponent - 2)
      else .scaled (2 * b.mantissa - 1) (b.exponent - 1)
    value := .scaled b.mantissa b.exponent
    high := .scaled (2 * b.mantissa + 1) (b.exponent - 1)
    closed := b.mantissa % 2 = 0 }

/-- Does `n * 10 ^ e` round to the double? -/
def Basin.holds (r : Basin) (n : Nat) (e : Int) : Bool :=
  let x : Fraction := if 0 ≤ e then ⟨n * Nat.pow 10 e.toNat, 1⟩ else ⟨n, Nat.pow 10 (-e).toNat⟩
  if r.closed then !x.lt r.low && !r.high.lt x else r.low.lt x && x.lt r.high

/-- The number of decimal places before the point of a positive fraction, by trying
`fuel` powers of ten down from `guess`. -/
def placesFrom (x : Fraction) : Nat → Int → Int
  | 0, guess => guess
  | fuel + 1, guess =>
    let y := x.shift (guess - 1)
    if y.den ≤ y.num then guess else placesFrom x fuel (guess - 1)

/-- The number of decimal places before the point of a positive double. -/
def places (b : Binary) : Int :=
  let bits : Int := Nat.log2 b.mantissa + b.exponent
  placesFrom (.scaled b.mantissa b.exponent) 4 ((bits * 1233).fdiv 4096 + 2)

/-- The decimal of `count` digits nearest to a double, if it rounds back to it. -/
def nearest? (r : Basin) (places : Int) (count : Nat) : Option (Nat × Int) :=
  let e := places - count
  let y := r.value.shift e
  let below := y.num / y.den
  let rest := y.num % y.den
  let above := below + 1
  let lowFits := r.holds below e
  let highFits := r.holds above e
  if lowFits && (!highFits || 2 * rest ≤ y.den) then some (below, e)
  else if highFits then some (above, e)
  else none

/-- Drops zeros at the end. -/
def dropZeros (ds : List Nat) : List Nat := (ds.reverse.dropWhile (· = 0)).reverse

/-- The shortest decimal of a double's magnitude; zero has no digits. -/
def shortest (b : Binary) : Digits :=
  if b.mantissa = 0 then ⟨[], 0⟩
  else
    let r := Basin.of b
    let p := places b
    match ((List.range 17).map (· + 1)).findSome? (nearest? r p) with
    | some (n, e) =>
      let ds := digitsOf n
      ⟨dropZeros ds, ds.length + e⟩
    | none => ⟨[], 0⟩

/-- The character of a digit. -/
def digitChar (d : Nat) : Char := Char.ofNat (0x30 + d)

/-- Digits as text. -/
def showDigits (ds : List Nat) : String := String.ofList (ds.map digitChar)

/-- A decimal written without an exponent. -/
def positional (d : Digits) : String :=
  if d.point ≤ 0 then
    if d.digits.isEmpty then "0"
    else "0." ++ String.ofList (List.replicate (-d.point).toNat '0') ++ showDigits d.digits
  else
    let whole := d.digits.take d.point.toNat
    let padded := whole ++ List.replicate (d.point.toNat - whole.length) 0
    let rest := d.digits.drop d.point.toNat
    if rest.isEmpty then showDigits padded else showDigits padded ++ "." ++ showDigits rest

/-- A decimal written with an exponent of at least `width` digits. -/
def exponential (d : Digits) (width : Nat) : String :=
  let head := showDigits (d.digits.take 1)
  let rest := d.digits.drop 1
  let e := d.point - 1
  let size := toString e.natAbs
  let padding := String.ofList (List.replicate (width - size.length) '0')
  (if rest.isEmpty then head else head ++ "." ++ showDigits rest)
    ++ (if e < 0 then "e-" else "e+") ++ padding ++ size

/-- Puts the sign of a double before its magnitude. -/
def signed (x : Float) (text : String) : String := if isNegative x then "-" ++ text else text

/-- A double without an exponent if it is neither tiny nor huge. -/
def plain (x : Float) : String :=
  let d := shortest (magnitude x)
  signed x <|
    if d.digits.isEmpty then "0"
    else if -5 ≤ d.point ∧ d.point ≤ 21 then positional d
    else exponential d (if d.point ≤ 0 then 1 else 2)

/-- A double in the general style. -/
def general (x : Float) : String :=
  let d := shortest (magnitude x)
  signed x <|
    if d.digits.isEmpty then "0"
    else if -3 ≤ d.point ∧ d.point ≤ 6 then positional d
    else exponential d 2

/-- A double without an exponent. -/
def fixed (x : Float) : String := signed x (positional (shortest (magnitude x)))

/-- The whole part of a finite double. -/
def truncate (x : Float) : Int :=
  let b := magnitude x
  let whole := if 0 ≤ b.exponent then b.mantissa * Nat.pow 2 b.exponent.toNat
    else b.mantissa / Nat.pow 2 (-b.exponent).toNat
  if isNegative x then -whole else whole

/-- Is the double a number, and not infinite? -/
def isFinite (x : Float) : Bool := x.toBits.toNat / 0x10000000000000 % 0x800 ≠ 0x7FF

end Decimal
end Moniker
