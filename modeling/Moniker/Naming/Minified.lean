/-
# Short names

Source: `mangler.MinifiedName`, `mangler.NamePool.Next`.

The names `a`, …, `z`, `aa`, `ab`, … in their fixed order: bijective numerals in
base 26, so that every nonempty word of small letters is the name of one number.

A `NamePool` gives them out in order and skips those that are taken.  Its position
only moves forward.
-/

import Moniker.Text.Bytes

namespace Moniker

/-- The letter of a digit. -/
def letter (digit : Nat) : Char := Char.ofNat (0x61 + digit)

/-- The bijective numeral of a number in base 26; zero has none. -/
def numeral (n : Nat) : List Char :=
  if h : n = 0 then []
  else
    have : (n - 1) / 26 < n := by omega
    numeral ((n - 1) / 26) ++ [letter ((n - 1) % 26)]

/-- The short name of a number, counted from zero. -/
def minified (i : Nat) : String := String.ofList (numeral (i + 1))

/-- Gives out short names, all with the same head. -/
structure NamePool where
  head : String := ""
  next : Nat := 0
deriving DecidableEq, Inhabited

namespace NamePool

/-- The name at the pool's position. -/
def current (pool : NamePool) : String := pool.head ++ minified pool.next

/-- The pool one name further. -/
def advance (pool : NamePool) : NamePool := { pool with next := pool.next + 1 }

/-- Skips at most `fuel` taken names and gives out the next one. -/
def draw (taken : String → Bool) : Nat → NamePool → String × NamePool
  | 0, pool => (pool.current, pool.advance)
  | fuel + 1, pool =>
    if taken pool.current then draw taken fuel pool.advance else (pool.current, pool.advance)

/-- Gives out the next name that is not in a list. Among as many names as the list
has and one more, there is one that is not in it. -/
def drawAvoiding (taken : List String) (pool : NamePool) : String × NamePool :=
  pool.draw taken.contains taken.length

/-- Gives out `count` names that are not in a list. -/
def drawMany (taken : List String) : Nat → NamePool → List String
  | 0, _ => []
  | count + 1, pool =>
    let (name, pool) := pool.drawAvoiding taken
    name :: drawMany taken count pool

end NamePool
end Moniker
