/-
# Points in time and spans of time

An `Instant` is a number of seconds since the first of January 1970 in universal
time, a number of nanoseconds, and the offset of the clock it was read from.  The
offset only matters when the instant is shown.

Instants are written like `2024-03-01T10:00:00.5+02:00`: the fraction without
zeros at its end, and `Z` for no offset.

A span is a number of nanoseconds.  It is written in the largest units that fit:

| span | written |
| --- | --- |
| none | `0s` |
| below a second | `1.5ms`, `12µs`, `7ns` |
| from a second on | `1h2m3.25s`, without leading zero units |
-/

import Moniker.Text.Bytes

namespace Moniker

/-- A date of the Gregorian calendar. -/
structure Date where
  year : Int
  month : Nat
  day : Nat
deriving DecidableEq, Inhabited

namespace Date

/-- Has the year a 29th of February? -/
def isLeap (year : Int) : Bool := year % 4 = 0 && (year % 100 ≠ 0 || year % 400 = 0)

/-- The days of a month. -/
def daysIn (year : Int) (month : Nat) : Nat :=
  if month = 2 then (if isLeap year then 29 else 28)
  else if month = 4 ∨ month = 6 ∨ month = 9 ∨ month = 11 then 30
  else 31

/-- Is it a day of the calendar? -/
def isValid (d : Date) : Bool :=
  1 ≤ d.month && d.month ≤ 12 && 1 ≤ d.day && d.day ≤ daysIn d.year d.month

/-- Days since the first of January 1970. Years are counted from March. -/
def toDays (d : Date) : Int :=
  let y : Int := if d.month ≤ 2 then d.year - 1 else d.year
  let m : Int := (d.month + 9) % 12
  365 * y + y.fdiv 4 - y.fdiv 100 + y.fdiv 400 + (153 * m + 2).fdiv 5 + d.day - 1 - 719468

/-- The date a number of days after the first of January 1970. -/
def ofDays (days : Int) : Date :=
  let z := days + 719468
  let era := z.fdiv 146097
  let doe := z - era * 146097
  let yoe := (doe - doe.fdiv 1460 + doe.fdiv 36524 - doe.fdiv 146096).fdiv 365
  let doy := doe - (365 * yoe + yoe.fdiv 4 - yoe.fdiv 100)
  let mp := (5 * doy + 2).fdiv 153
  let day := doy - (153 * mp + 2).fdiv 5 + 1
  let month := if mp < 10 then mp + 3 else mp - 9
  { year := yoe + era * 400 + (if month ≤ 2 then 1 else 0), month := month.toNat, day := day.toNat }

end Date

/-- A point in time, as shown by a clock some seconds east of universal time. -/
structure Instant where
  seconds : Int
  nanos : Nat := 0
  offset : Int := 0
deriving DecidableEq

/-- A number with zeros before it up to a width. -/
def padded (width n : Nat) : String :=
  let s := toString n
  String.ofList (List.replicate (width - s.length) '0') ++ s

namespace Instant

/-- The first instant of year one, which stands for no time at all. -/
def zero : Instant := { seconds := -62135596800 }

instance : Inhabited Instant := ⟨zero⟩

/-- Does it stand for no time at all? -/
def isZero (t : Instant) : Bool := t.seconds = zero.seconds && t.nanos = 0

/-- The same instant in universal time. -/
def utc (t : Instant) : Instant := { t with offset := 0 }

/-- Earlier or at the same time. -/
def le (a b : Instant) : Bool :=
  a.seconds < b.seconds || (a.seconds = b.seconds && a.nanos ≤ b.nanos)

/-- The date and the second of the day that the clock shows. -/
def clock (t : Instant) : Date × Nat :=
  let shown := t.seconds + t.offset
  (Date.ofDays (shown.fdiv 86400), (shown.fmod 86400).toNat)

/-- A year of at least four digits. -/
def showYear (y : Int) : String := if y < 0 then "-" ++ padded 4 y.natAbs else padded 4 y.natAbs

/-- Date and time of day with a separator. -/
def clockText (t : Instant) (separator : String) : String :=
  let (d, s) := t.clock
  showYear d.year ++ "-" ++ padded 2 d.month ++ "-" ++ padded 2 d.day ++ separator
    ++ padded 2 (s / 3600) ++ ":" ++ padded 2 (s / 60 % 60) ++ ":" ++ padded 2 (s % 60)

/-- The fraction of the second, without zeros at its end. -/
def fractionText (t : Instant) : String :=
  if t.nanos = 0 then ""
  else "." ++ String.ofList (((padded 9 t.nanos).toList.reverse.dropWhile (· = '0')).reverse)

/-- The offset of the clock. -/
def offsetText (t : Instant) : String :=
  if t.offset = 0 then "Z"
  else
    let minutes := t.offset.natAbs / 60
    (if t.offset < 0 then "-" else "+") ++ padded 2 (minutes / 60) ++ ":" ++ padded 2 (minutes % 60)

/-- An instant to the second. -/
def brief (t : Instant) : String := t.clockText "T" ++ t.offsetText

/-- An instant with its fraction. -/
def text (t : Instant) : String := t.clockText "T" ++ t.fractionText ++ t.offsetText

/-- Exactly `width` digits, and the rest. -/
def digits? (width : Nat) (cs : List Char) : Option (Nat × List Char) :=
  let ds := cs.take width
  if ds.length = width && ds.all Char.isDigit then
    some (ds.foldl (fun n d => 10 * n + (d.toNat - 0x30)) 0, cs.drop width)
  else none

/-- One character, and the rest. -/
def mark? (c : Char) : List Char → Option (List Char)
  | d :: rest => if c = d then some rest else none
  | [] => none

/-- The nanoseconds of a fraction; digits after the ninth do not count. -/
def fraction? : List Char → Option (Nat × List Char)
  | '.' :: rest =>
    let ds := rest.takeWhile Char.isDigit
    if ds.isEmpty then none
    else
      let nine := (ds ++ List.replicate 9 '0').take 9
      some (nine.foldl (fun n d => 10 * n + (d.toNat - 0x30)) 0, rest.drop ds.length)
  | cs => some (0, cs)

/-- The seconds of an offset. -/
def offset? (cs : List Char) : Option (Int × List Char) :=
  let amount (sign : Int) (cs : List Char) : Option (Int × List Char) := do
    let (h, cs) ← digits? 2 cs
    let cs ← mark? ':' cs
    let (m, cs) ← digits? 2 cs
    if h < 24 && m < 60 then some (sign * (h * 3600 + m * 60), cs) else none
  match cs with
  | 'Z' :: rest => some (0, rest)
  | '+' :: rest => amount 1 rest
  | '-' :: rest => amount (-1) rest
  | _ => none

/-- Reads an instant. -/
def parse? (s : String) : Option Instant := do
  let (year, cs) ← digits? 4 s.toList
  let cs ← mark? '-' cs
  let (month, cs) ← digits? 2 cs
  let cs ← mark? '-' cs
  let (day, cs) ← digits? 2 cs
  let cs ← mark? 'T' cs
  let (hour, cs) ← digits? 2 cs
  let cs ← mark? ':' cs
  let (minute, cs) ← digits? 2 cs
  let cs ← mark? ':' cs
  let (second, cs) ← digits? 2 cs
  let (nanos, cs) ← fraction? cs
  let (offset, cs) ← offset? cs
  let date : Date := ⟨year, month, day⟩
  if cs.isEmpty && date.isValid && hour < 24 && minute < 60 && second < 60 then
    some { seconds := date.toDays * 86400 + hour * 3600 + minute * 60 + second - offset
           nanos := nanos, offset := offset }
  else none

end Instant

/-- A span of time in nanoseconds. -/
structure Span where
  nanos : Int
deriving DecidableEq, Inhabited

namespace Span

/-- A number of whole units and billionths of one without zeros at the end;
`places` digits of the fraction are there. -/
def withFraction (whole fraction places : Nat) : String :=
  let ds := ((padded places fraction).toList.reverse.dropWhile (· = '0')).reverse
  if fraction = 0 ∨ ds.isEmpty then toString whole
  else toString whole ++ "." ++ String.ofList ds

/-- A positive span below a second. -/
def smallText (n : Nat) : String :=
  if n < 1000 then toString n ++ "ns"
  else if n < 1000000 then withFraction (n / 1000) (n % 1000) 3 ++ "µs"
  else withFraction (n / 1000000) (n % 1000000) 6 ++ "ms"

/-- A span of at least a second. -/
def largeText (n : Nat) : String :=
  let seconds := n / 1000000000
  let last := withFraction (seconds % 60) (n % 1000000000) 9 ++ "s"
  if seconds < 60 then last
  else
    let minutes := seconds / 60
    if minutes < 60 then toString minutes ++ "m" ++ last
    else toString (minutes / 60) ++ "h" ++ toString (minutes % 60) ++ "m" ++ last

/-- A span in words. -/
def text (d : Span) : String :=
  let n := d.nanos.natAbs
  let body := if n = 0 then "0s" else if n < 1000000000 then smallText n else largeText n
  if d.nanos < 0 then "-" ++ body else body

/-- The span rounded to whole microseconds, halves away from zero. -/
def toMicros (d : Span) : Span :=
  let n := d.nanos.natAbs
  let rounded : Int := ((n + 500) / 1000 * 1000 : Nat)
  ⟨if d.nanos < 0 then -rounded else rounded⟩

/-- The whole milliseconds of a span, towards zero. -/
def millis (d : Span) : Int := d.nanos.tdiv 1000000

end Span
end Moniker
