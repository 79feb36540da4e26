/-
# YAML

Writes values in block style.  A record nested in a record is indented to the next
multiple of four, an item of a list by the width of its dash.

A text is written plain if that reads back as the same text, between single quotes
if a mark in it would be misread, and between double quotes if it holds something
that must be escaped or would be read as another kind of value.  A text of several
lines is written as a block of lines.

Keys are in an order that puts letters by letter and runs of digits by their
number, so that `a2` comes before `a10`.
-/

import Moniker.Data.Decimal
import Moniker.Data.Instant
import Moniker.Data.Value
import Moniker.Text.Quoted

namespace Moniker
namespace Yaml

/-- The words that stand for truth values, for nothing and for odd numbers. -/
def specialWords : List String :=
  ["true", "True", "TRUE", "false", "False", "FALSE", "", "~", "null", "Null", "NULL",
    ".nan", ".NaN", ".NAN", ".inf", ".Inf", ".INF", "+.inf", "+.Inf", "+.INF",
    "-.inf", "-.Inf", "-.INF"]

/-- Words that some readers take for truth values. -/
def oldWords : List String :=
  ["y", "Y", "yes", "Yes", "YES", "on", "On", "ON", "n", "N", "no", "No", "NO", "off", "Off", "OFF"]

/-- Drops one sign. -/
def dropSign : List Char → List Char
  | c :: rest => if c = '+' ∨ c = '-' then rest else c :: rest
  | [] => []

/-- Is it a nonempty text of digits in a base? -/
def areDigits (base : Nat) (cs : List Char) : Bool :=
  !cs.isEmpty && cs.all fun c =>
    let v := if c.isDigit then c.toNat - 0x30
      else if 'a' ≤ c ∧ c ≤ 'f' then c.toNat - 0x61 + 10
      else if 'A' ≤ c ∧ c ≤ 'F' then c.toNat - 0x41 + 10 else 99
    v < base

/-- Is it a whole number, perhaps with a mark for its base? -/
def isWhole (cs : List Char) : Bool :=
  let body := dropSign cs
  match body with
  | '0' :: m :: rest =>
    if m = 'x' ∨ m = 'X' then areDigits 16 rest
    else if m = 'b' ∨ m = 'B' then areDigits 2 rest
    else if m = 'o' ∨ m = 'O' then areDigits 8 rest
    else areDigits 8 (m :: rest)
  | _ => areDigits 10 body

/-- Is it an exponent, or nothing? -/
def isExponent : List Char → Bool
  | [] => true
  | e :: rest => (e = 'e' || e = 'E') && areDigits 10 (dropSign rest)

/-- Is it a number with a fraction or an exponent? -/
def isFractional (cs : List Char) : Bool :=
  let body := dropSign cs
  let whole := body.takeWhile Char.isDigit
  match body.dropWhile Char.isDigit with
  | '.' :: rest =>
    let places := rest.takeWhile Char.isDigit
    (!whole.isEmpty || !places.isEmpty) && isExponent (rest.dropWhile Char.isDigit)
  | rest => !whole.isEmpty && isExponent rest

/-- One or two digits, and the rest. -/
def short? (cs : List Char) : Option (Nat × List Char) :=
  match Instant.digits? 2 cs with
  | some r => some r
  | none => Instant.digits? 1 cs

/-- Is it the rest of a time of day? With a zone, or without. -/
def isClock (zoned : Bool) (cs : List Char) : Bool :=
  let read := do
    let (h, cs) ← short? cs
    let cs ← Instant.mark? ':' cs
    let (m, cs) ← short? cs
    let cs ← Instant.mark? ':' cs
    let (s, cs) ← short? cs
    let (_, cs) ← Instant.fraction? cs
    let (_, cs) ← if zoned then Instant.offset? cs else some (0, cs)
    if cs.isEmpty && h < 24 && m < 60 && s < 60 then some () else none
  read.isSome

/-- Would the text be read as a point in time? -/
def isTimestamp (cs : List Char) : Bool :=
  let read := do
    let (year, cs) ← Instant.digits? 4 cs
    let cs ← Instant.mark? '-' cs
    let (month, cs) ← short? cs
    let cs ← Instant.mark? '-' cs
    let (day, cs) ← short? cs
    let date : Date := ⟨year, month, day⟩
    if !date.isValid then none
    else
      match cs with
      | [] => some ()
      | c :: rest =>
        if (c = 'T' || c = 't') && isClock true rest || c = ' ' && isClock false rest then some ()
        else none
  read.isSome

/-- Is it a number in base sixty? -/
def isSexagesimal (cs : List Char) : Bool :=
  let body := dropSign cs
  match Text.splitChars ':' body with
  | first :: second :: rest =>
    let isPart (p : List Char) : Bool :=
      match p with
      | [d] => d.isDigit
      | [t, d] => '0' ≤ t && t ≤ '5' && d.isDigit
      | _ => false
    let parts := second :: rest
    let last := (parts.getLast?).getD []
    let isDigitOrLine (c : Char) : Bool := c.isDigit || c = '_'
    let fractionFits := ((last.dropWhile (· ≠ '.')).drop 1).all isDigitOrLine
    (match first with
      | d :: more => d.isDigit && more.all isDigitOrLine
      | [] => false)
    && parts.dropLast.all isPart && isPart (last.takeWhile (· ≠ '.')) && fractionFits
  | _ => false

/-- Would a plain text be read as something else than a text? -/
def isAmbiguous (s : String) : Bool :=
  let cs := s.toList
  let looksNumeric :=
    match cs with
    | c :: _ =>
      if c.isDigit ∨ c = '+' ∨ c = '-' then
        let bare := cs.filter (· ≠ '_')
        isTimestamp cs || isWhole bare || isFractional bare
      else c = '.' && isFractional cs
    | [] => false
  specialWords.contains s || oldWords.contains s || looksNumeric || isSexagesimal cs

/-- Can the character stand for itself? Not if it needs more than three bytes. -/
def isShown (c : Char) : Bool :=
  let n := c.toNat
  n = 0x0A || (0x20 ≤ n && n ≤ 0x7E) || (0xA0 ≤ n && n ≤ 0xFFFD && n ≠ 0xFEFF)

/-- Does the character end a line? -/
def isBreak (c : Char) : Bool :=
  let n := c.toNat
  n = 0x0A || n = 0x0D || n = 0x85 || n = 0x2028 || n = 0x2029

/-- A blank or a tab. -/
def isBlank (c : Char) : Bool := c = ' ' || c = '\t'

/-- Marks that no plain text begins with. -/
def openingMarks : List Char :=
  ['#', ',', '[', ']', '\x7b', '\x7d', '&', '*', '!', '|', '>', Char.ofNat 0x27, '"', '%', '@',
    Char.ofNat 0x60]

/-- Would a mark inside the text be misread? `before` tells whether a blank stands
before what is left. -/
def hasInnerMark : List Char → Bool → Bool
  | [], _ => false
  | c :: rest, before =>
    let blankNext := (rest.head?.map isBlank).getD true
    (c = ':' && blankNext) || (c = '#' && before) || hasInnerMark rest (isBlank c || isBreak c)

/-- Would a mark at the start of the text be misread? -/
def hasOpeningMark (cs : List Char) : Bool :=
  match cs with
  | [] => false
  | c :: rest =>
    let blankNext := (rest.head?.map isBlank).getD true
    openingMarks.contains c || ((c = '?' || c = ':' || c = '-') && blankNext)
    || "---".toList.isPrefixOf cs || "...".toList.isPrefixOf cs

/-- Two neighbours for which both conditions hold. -/
def anyPair (p q : Char → Bool) : List Char → Bool
  | a :: b :: rest => (p a && q b) || anyPair p q (b :: rest)
  | _ => false

/-- How a text can be written. -/
inductive Style where
  | plain
  | single
  | double
  | block
deriving DecidableEq, Inhabited

/-- What speaks against some ways to write a text. -/
structure Shape where
  plainFits : Bool
  singleFits : Bool
  blockFits : Bool
  multiline : Bool
deriving DecidableEq, Inhabited

/-- Looks a text over. -/
def shapeOf (cs : List Char) : Shape :=
  if cs.isEmpty then
    { plainFits := true, singleFits := true, blockFits := false, multiline := false }
  else
    let isSpace (c : Char) : Bool := c = ' '
    let first := (cs.head?).getD 'x'
    let last := (cs.getLast?).getD 'x'
    let edges := isSpace first || isSpace last || isBreak first || isBreak last
    let breakSpace := anyPair isBreak isSpace cs
    let spaceBreak := anyPair isSpace isBreak cs
    let hasTab := cs.contains '\t'
    let special := cs.any fun c => c ≠ '\t' && !isShown c
    let multiline := cs.any isBreak
    let rough := breakSpace || spaceBreak || hasTab || special
    { plainFits := !edges && !rough && !multiline && !hasOpeningMark cs
        && !hasInnerMark cs.tail (isBlank first || isBreak first)
      singleFits := !rough
      blockFits := !isSpace last && !spaceBreak && !special
      multiline := multiline }

/-- How a text is written, as a key or not. -/
def styleOf (s : String) (isKey : Bool) : Style :=
  let shape := shapeOf s.toList
  if s.toList.contains '\n' then if shape.blockFits && !isKey then .block else .double
  else if isAmbiguous s then .double
  else if shape.multiline && isKey then .double
  else if shape.plainFits && !(s.isEmpty && isKey) then .plain
  else if shape.singleFits then .single
  else .double

/-- An uppercase hexadecimal number of a width. -/
def upperHex (width n : Nat) : List Char := (Text.hex width n).map Char.toUpper

/-- The letter after the backslash for characters that have one. -/
def letterFor? (c : Char) : Option Char :=
  match c.toNat with
  | 0x00 => some '0'
  | 0x07 => some 'a'
  | 0x08 => some 'b'
  | 0x09 => some 't'
  | 0x0A => some 'n'
  | 0x0B => some 'v'
  | 0x0C => some 'f'
  | 0x0D => some 'r'
  | 0x1B => some 'e'
  | 0x22 => some '"'
  | 0x5C => some '\\'
  | 0x85 => some 'N'
  | 0xA0 => some '_'
  | 0x2028 => some 'L'
  | 0x2029 => some 'P'
  | _ => none

/-- How a character is written between double quotes. -/
def escapeChar (c : Char) : List Char :=
  if isShown c && !isBreak c && c ≠ '"' && c ≠ '\\' then [c]
  else
    '\\' :: match letterFor? c with
      | some l => [l]
      | none =>
        if c.toNat ≤ 0xFF then 'x' :: upperHex 2 c.toNat
        else if c.toNat ≤ 0xFFFF then 'u' :: upperHex 4 c.toNat
        else 'U' :: upperHex 8 c.toNat

/-- Blanks at the start of a line. -/
def margin (indent : Nat) : String := String.ofList (List.replicate indent ' ')

/-- The head of a block: whether a margin must be told, and what becomes of the
newlines at its end. -/
def blockHead (cs : List Char) : String :=
  let opening := match cs.head? with
    | some c => if c = ' ' || isBreak c then "4" else ""
    | none => ""
  let closing := match cs.reverse with
    | [c] => if isBreak c then "+" else "-"
    | c :: d :: _ => if !isBreak c then "-" else if isBreak d then "+" else ""
    | [] => "-"
  "|" ++ opening ++ closing

/-- The lines of a block. -/
def blockLines (s : String) (indent : Nat) : List String :=
  let pieces := Text.split '\n' s
  let pieces := if pieces.head? = some "" then pieces.drop 1 else pieces
  let pieces := if pieces.getLast? = some "" then pieces.dropLast else pieces
  blockHead s.toList :: pieces.map fun p => if p = "" then "" else margin indent ++ p

/-- A text as lines; those after the first are at `indent`. -/
def textLines (s : String) (indent : Nat) (isKey : Bool) : List String :=
  match styleOf s isKey with
  | .plain => [s]
  | .single =>
    [String.ofList (Char.ofNat 0x27 :: (s.toList.flatMap fun c =>
      if c.toNat = 0x27 then [c, c] else [c]) ++ [Char.ofNat 0x27])]
  | .double => [String.ofList ('"' :: (s.toList.flatMap escapeChar ++ ['"']))]
  | .block => blockLines s indent

/-- The lines of a value that is neither list nor record. -/
def scalarLines (v : Value) (indent : Nat) : List String :=
  match v with
  | .null => ["null"]
  | .bool b => [if b then "true" else "false"]
  | .int n => [toString n]
  | .num x => [Decimal.general x]
  | .str s => textLines s indent false
  | .list _ => ["[]"]
  | .record _ => ["\x7b\x7d"]

/-- The number two runs of digits are compared by. A run that goes on after equal
digits counts as if it began with one, unless all of these are zeros. -/
def runValue (lead : Nat) (cs : List Char) : Nat :=
  (cs.takeWhile Text.isDigit).foldl (fun n d => 10 * n + (d.toNat - 0x30)) lead

/-- Compares keys from where they differ. `before` is what they share, in reverse. -/
def keyLtFrom : List Char → List Char → List Char → Bool
  | before, a :: as, b :: bs =>
    if a = b then keyLtFrom (a :: before) as bs
    else
      let la := Text.isLetter a
      let lb := Text.isLetter b
      let afterDigit := (before.head?.map Text.isDigit).getD false
      if la && lb then a < b
      else if la || lb then if afterDigit then la else lb
      else
        let lead := if (a = '0' || b = '0') && (before.takeWhile Text.isDigit).any (· ≠ '0')
          then 1 else 0
        let na := runValue lead (a :: as)
        let nb := runValue lead (b :: bs)
        let wa := ((a :: as).takeWhile Text.isDigit).length
        let wb := ((b :: bs).takeWhile Text.isDigit).length
        if na ≠ nb then na < nb else if wa ≠ wb then wa < wb else a < b
  | _, [], _ :: _ => true
  | _, _, [] => false

/-- Does a key come before another one? -/
def keyLt (a b : String) : Bool := keyLtFrom [] a.toList b.toList

/-- The margin of what is nested in a record. -/
def nested (indent : Nat) : Nat := 4 * ((indent + 4) / 4)

/-- Puts text before the first of some lines. -/
def prepend (head : String) : List String → List String
  | [] => [head]
  | line :: rest => (head ++ line) :: rest

/-- Is the value written over lines of its own? -/
def isBlock : Value → Bool
  | .list items => !items.isEmpty
  | .record fields => !fields.isEmpty
  | _ => false

/-- A field: its key and the lines of its value, written at `indent`. -/
def fieldLines (key : String) (indent : Nat) (block : Bool) (lines : List String) : List String :=
  let body := if block then prepend (margin (nested indent)) lines else lines
  let isLong := 128 < key.utf8ByteSize || (shapeOf key.toList).multiline
  if isLong then
    let keyLines := prepend "? " (textLines key (nested indent) false)
    keyLines ++ prepend (margin indent ++ ": ") lines
  else
    let keyText := (textLines key 0 true).headD ""
    if block then (keyText ++ ":") :: body else prepend (keyText ++ ": ") body

/-- Gives all lines but the first a margin. -/
def place (indent : Nat) (groups : List (List String)) : List String :=
  match groups with
  | [] => []
  | first :: rest => first ++ rest.flatMap (prepend (margin indent))

mutual

/-- The lines of a value at an indentation: the first without it, the others with
it. -/
def linesOf (indent : Nat) (textIndent : Nat) : Value → List String
  | .list (v :: rest) => place indent (itemLines indent (v :: rest))
  | .record (f :: rest) => place indent (recordLines indent (f :: rest))
  | v => scalarLines v textIndent

/-- The items of a list, each as lines. -/
def itemLines (indent : Nat) : List Value → List (List String)
  | [] => []
  | v :: rest => prepend "- " (linesOf (indent + 2) (indent + 2) v) :: itemLines indent rest

/-- The fields of a record, each as lines. -/
def recordLines (indent : Nat) : List (String × Value) → List (List String)
  | [] => []
  | (k, v) :: rest =>
    fieldLines k indent (isBlock v) (linesOf (nested indent) (nested indent) v)
    :: recordLines indent rest

end

mutual

/-- A value with the fields of all its records in order. -/
def ordered : Value → Value
  | .list items => .list (orderedItems items)
  | .record fields => .record ((orderedFields fields).mergeSort fun a b => !keyLt b.1 a.1)
  | v => v

/-- Items in order. -/
def orderedItems : List Value → List Value
  | [] => []
  | v :: rest => ordered v :: orderedItems rest

/-- Fields, their values in order. -/
def orderedFields : List (String × Value) → List (String × Value)
  | [] => []
  | (k, v) :: rest => (k, ordered v) :: orderedFields rest

end

/-- A value as a document without the newline at its end. -/
def render (v : Value) : String := Text.join "\n" (linesOf 0 4 (ordered v))

end Yaml
end Moniker
