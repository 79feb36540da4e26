/-
# JSON

Writing: on one line, or with every item on a line of its own and two blanks a
level.  Fields are written in the order in which the record has them.

Reading is strict: nothing but blanks may follow the value, and control characters
must be escaped.  A number with neither a fraction nor an exponent is read as a
whole number.  An escaped half of a character without its other half is read as
`U+FFFD`.
-/

import Moniker.Data.Decimal
import Moniker.Data.Value
import Moniker.Text.Quoted

namespace Moniker
namespace Json

/-- How texts are written. -/
inductive Escaping where
  /-- What the format demands, and line separators. -/
  | minimal
  /-- Angle brackets and ampersands too, so that markup can hold the result. -/
  | markup
deriving DecidableEq, Inhabited

/-- Must the character be written by its number? -/
def needsNumber (style : Escaping) (c : Char) : Bool :=
  c.toNat < 0x20 || c.toNat = 0x2028 || c.toNat = 0x2029
  || (style = .markup && (c = '<' || c = '>' || c = '&'))

/-- How a character of a text is written. -/
def escapeChar (style : Escaping) (c : Char) : List Char :=
  if c = '"' ∨ c = '\\' then ['\\', c]
  else if c = '\n' then ['\\', 'n']
  else if c = '\r' then ['\\', 'r']
  else if c = '\t' then ['\\', 't']
  else if needsNumber style c then '\\' :: 'u' :: Text.hex 4 c.toNat
  else [c]

/-- A text between quotes. -/
def quote (style : Escaping) (s : String) : String :=
  String.ofList ('"' :: (s.toList.flatMap (escapeChar style) ++ ['"']))

/-- A value that is neither list nor record. -/
def scalar (style : Escaping) : Value → String
  | .null => "null"
  | .bool b => if b then "true" else "false"
  | .int n => toString n
  | .num x => Decimal.plain x
  | .str s => quote style s
  | _ => ""

/-- Opening and closing brackets of a record. -/
def openBrace : String := "\x7b"
/-- The closing bracket of a record. -/
def closeBrace : String := "\x7d"

mutual

/-- A value on one line. -/
def compact (style : Escaping) : Value → String
  | .list items => "[" ++ Text.join "," (compactItems style items) ++ "]"
  | .record fields => openBrace ++ Text.join "," (compactFields style fields) ++ closeBrace
  | v => scalar style v

/-- The items of a list, each on one line. -/
def compactItems (style : Escaping) : List Value → List String
  | [] => []
  | v :: rest => compact style v :: compactItems style rest

/-- The fields of a record, each on one line. -/
def compactFields (style : Escaping) : List (String × Value) → List String
  | [] => []
  | (k, v) :: rest => (quote style k ++ ":" ++ compact style v) :: compactFields style rest

end

/-- The start of a line at some depth. -/
def margin (depth : Nat) : String := String.ofList ('\n' :: List.replicate (2 * depth) ' ')

/-- Parts between brackets, each on its own line. -/
def bracket (opening closing : String) (depth : Nat) (parts : List String) : String :=
  if parts.isEmpty then opening ++ closing
  else
    opening ++ margin (depth + 1) ++ Text.join ("," ++ margin (depth + 1)) parts ++ margin depth
    ++ closing

mutual

/-- A value over several lines, at some depth. -/
def indentedAt (depth : Nat) : Value → String
  | .list items => bracket "[" "]" depth (indentedItems (depth + 1) items)
  | .record fields => bracket openBrace closeBrace depth (indentedFields (depth + 1) fields)
  | v => scalar .markup v

/-- The items of a list. -/
def indentedItems (depth : Nat) : List Value → List String
  | [] => []
  | v :: rest => indentedAt depth v :: indentedItems depth rest

/-- The fields of a record. -/
def indentedFields (depth : Nat) : List (String × Value) → List String
  | [] => []
  | (k, v) :: rest => (quote .markup k ++ ": " ++ indentedAt depth v) :: indentedFields depth rest

end

/-- A value over several lines. -/
def indented (v : Value) : String := indentedAt 0 v

/-- Drops blanks. -/
def skip : List Char → List Char
  | [] => []
  | c :: rest => if c = ' ' ∨ c = '\t' ∨ c = '\n' ∨ c = '\r' then skip rest else c :: rest

/-- The value of a hexadecimal digit. -/
def hexValue? (c : Char) : Option Nat :=
  if c.isDigit then some (c.toNat - 0x30)
  else if 'a' ≤ c ∧ c ≤ 'f' then some (c.toNat - 0x61 + 10)
  else if 'A' ≤ c ∧ c ≤ 'F' then some (c.toNat - 0x41 + 10)
  else none

/-- The number that four hexadecimal digits write, and the rest. -/
def hex4? : List Char → Option (Nat × List Char)
  | a :: b :: c :: d :: rest => do
    let n := (← hexValue? a) * 4096 + (← hexValue? b) * 256 + (← hexValue? c) * 16 + (← hexValue? d)
    return (n, rest)
  | _ => none

/-- The character of a letter after a backslash. -/
def shortEscape? (c : Char) : Option Char :=
  match c with
  | '"' => some '"'
  | '\\' => some '\\'
  | '/' => some '/'
  | 'b' => some (Char.ofNat 8)
  | 'f' => some (Char.ofNat 12)
  | 'n' => some '\n'
  | 'r' => some '\r'
  | 't' => some '\t'
  | _ => none

/-- The character a unit of sixteen bits stands for, with the unit after it. -/
def unitChar (unit : Nat) (rest : List Char) : Char × List Char :=
  if 0xD800 ≤ unit ∧ unit < 0xDC00 then
    match rest with
    | '\\' :: 'u' :: more =>
      match hex4? more with
      | some (low, after) =>
        if 0xDC00 ≤ low ∧ low < 0xE000 then
          (Char.ofNat (0x10000 + (unit - 0xD800) * 1024 + (low - 0xDC00)), after)
        else (Text.replacement, rest)
      | none => (Text.replacement, rest)
    | _ => (Text.replacement, rest)
  else if 0xDC00 ≤ unit ∧ unit < 0xE000 then (Text.replacement, rest)
  else (Char.ofNat unit, rest)

/-- Reads a text up to its closing quote. `done` is what was read, in reverse. -/
def text? : Nat → List Char → List Char → Option (String × List Char)
  | 0, _, _ => none
  | fuel + 1, cs, done =>
    match cs with
    | [] => none
    | '"' :: rest => some (String.ofList done.reverse, rest)
    | '\\' :: 'u' :: rest => do
      let (unit, rest) ← hex4? rest
      let (c, rest) := unitChar unit rest
      text? fuel rest (c :: done)
    | '\\' :: c :: rest => do text? fuel rest ((← shortEscape? c) :: done)
    | c :: rest => if c.toNat < 0x20 ∨ c = '\\' then none else text? fuel rest (c :: done)

/-- The digits a text begins with, and the rest. -/
def spanDigits (cs : List Char) : List Char × List Char :=
  (cs.takeWhile Char.isDigit, cs.dropWhile Char.isDigit)

/-- The number that digits write. -/
def natOf (ds : List Char) : Nat := ds.foldl (fun n d => 10 * n + (d.toNat - 0x30)) 0

/-- The fraction of a number: its digits. -/
def fraction? : List Char → Option (List Char × List Char)
  | '.' :: rest =>
    match spanDigits rest with
    | ([], _) => none
    | (ds, after) => some (ds, after)
  | cs => some ([], cs)

/-- The exponent of a number, if it has one. -/
def exponent? (cs : List Char) : Option (Option Int × List Char) :=
  let digits (negative : Bool) (cs : List Char) : Option (Option Int × List Char) :=
    match spanDigits cs with
    | ([], _) => none
    | (ds, after) => some (some (if negative then -(natOf ds : Int) else natOf ds), after)
  match cs with
  | e :: rest =>
    if e = 'e' ∨ e = 'E' then
      match rest with
      | '+' :: more => digits false more
      | '-' :: more => digits true more
      | more => digits false more
    else some (none, cs)
  | [] => some (none, [])

/-- The double nearest to `n * 10 ^ e`. -/
def toDouble (negative : Bool) (n : Nat) (e : Int) : Float :=
  let x :=
    if 0 ≤ e then Float.ofScientific n false e.toNat else Float.ofScientific n true (-e).toNat
  if negative then -x else x

/-- Reads a number without its sign. -/
def unsigned? (negative : Bool) (cs : List Char) : Option (Value × List Char) := do
  let (whole, rest) := spanDigits cs
  if whole.isEmpty || (1 < whole.length && whole.head? = some '0') then none
  let (places, rest) ← fraction? rest
  let (e, rest) ← exponent? rest
  if places.isEmpty && e.isNone then
    some (.int (if negative then -(natOf whole : Int) else natOf whole), rest)
  else
    let x := toDouble negative (natOf (whole ++ places)) (e.getD 0 - places.length)
    if Decimal.isFinite x then some (.num x, rest) else none

/-- Reads a number. -/
def number? : List Char → Option (Value × List Char)
  | '-' :: rest => unsigned? true rest
  | cs => unsigned? false cs

/-- Reads a word that stands for a value. -/
def word? (word : String) (v : Value) (cs : List Char) : Option (Value × List Char) :=
  if word.toList.isPrefixOf cs then some (v, cs.drop word.length) else none

mutual

/-- Reads a value; `fuel` bounds the work. -/
def value? : Nat → List Char → Option (Value × List Char)
  | 0, _ => none
  | fuel + 1, cs =>
    match skip cs with
    | [] => none
    | '"' :: rest => (text? (rest.length + 1) rest []).map fun (s, after) => (.str s, after)
    | '[' :: rest =>
      match skip rest with
      | ']' :: after => some (.list [], after)
      | _ => (items? fuel rest).map fun (vs, after) => (.list vs, after)
    | 't' :: _ => word? "true" (.bool true) (skip cs)
    | 'f' :: _ => word? "false" (.bool false) (skip cs)
    | 'n' :: _ => word? "null" .null (skip cs)
    | c :: rest =>
      if c = '\x7b' then
        match skip rest with
        | '\x7d' :: after => some (.record [], after)
        | _ => (fields? fuel rest).map fun (fs, after) => (.record fs, after)
      else number? (skip cs)

/-- Reads the items of a list that has some. -/
def items? : Nat → List Char → Option (List Value × List Char)
  | 0, _ => none
  | fuel + 1, cs => do
    let (v, rest) ← value? fuel cs
    match skip rest with
    | ',' :: more =>
      let (vs, after) ← items? fuel more
      return (v :: vs, after)
    | ']' :: after => return ([v], after)
    | _ => none

/-- Reads the fields of a record that has some. -/
def fields? : Nat → List Char → Option (List (String × Value) × List Char)
  | 0, _ => none
  | fuel + 1, cs => do
    match skip cs with
    | '"' :: rest =>
      let (k, rest) ← text? (rest.length + 1) rest []
      match skip rest with
      | ':' :: rest =>
        let (v, rest) ← value? fuel rest
        match skip rest with
        | ',' :: more =>
          let (fs, after) ← fields? fuel more
          return ((k, v) :: fs, after)
        | '\x7d' :: after => return ([(k, v)], after)
        | _ => none
      | _ => none
    | _ => none

end

/-- Reads a text as a value. -/
def parse? (s : String) : Option Value := do
  let (v, rest) ← value? (2 * s.length + 2) s.toList
  if (skip rest).isEmpty then some v else none

end Json
end Moniker
