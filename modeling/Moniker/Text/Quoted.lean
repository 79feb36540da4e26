/-
# Quoted text

A text between double quotes with everything escaped that would not show as
itself.

| character | written |
| --- | --- |
| quote, backslash | with a backslash before it |
| printable | itself |
| bell, backspace, form feed, newline, return, tab, vertical tab | `\a \b \f \n \r \t \v` |
| other control characters, and bytes that begin no character | `\x` and two digits |
| other characters | `\u` and four digits, or `\U` and eight |
-/

import Moniker.Text.Bytes
import Moniker.Text.Classes

namespace Moniker
namespace Text

/-- A hexadecimal digit. -/
def hexDigit (n : Nat) : Char :=
  if n < 10 then Char.ofNat (0x30 + n) else Char.ofNat (0x61 + (n - 10))

/-- The last `width` hexadecimal digits of a number. -/
def hex : Nat → Nat → List Char
  | 0, _ => []
  | width + 1, n => hex width (n / 16) ++ [hexDigit (n % 16)]

/-- The letter after the backslash for control characters that have one. -/
def shortEscape? (code : Nat) : Option Char :=
  match code with
  | 7 => some 'a'
  | 8 => some 'b'
  | 9 => some 't'
  | 10 => some 'n'
  | 11 => some 'v'
  | 12 => some 'f'
  | 13 => some 'r'
  | _ => none

/-- How a character is written between quotes. -/
def escapeChar (c : Char) : List Char :=
  if c = '"' ∨ c = '\\' then ['\\', c]
  else if isPrintable c then [c]
  else
    match shortEscape? c.toNat with
    | some letter => ['\\', letter]
    | none =>
      if c.toNat < 0x20 ∨ c.toNat = 0x7F then '\\' :: 'x' :: hex 2 c.toNat
      else if c.toNat < 0x10000 then '\\' :: 'u' :: hex 4 c.toNat
      else '\\' :: 'U' :: hex 8 c.toNat

/-- How the start of some bytes is written between quotes, at most `fuel`
characters of it. -/
def escapeBytes : Nat → List UInt8 → List Char
  | 0, _ => []
  | _ + 1, [] => []
  | fuel + 1, b :: rest =>
    match first? (b :: rest) with
    | some (c, width) => escapeChar c ++ escapeBytes fuel ((b :: rest).drop width)
    | none => '\\' :: 'x' :: (hex 2 b.toNat ++ escapeBytes fuel rest)

/-- Bytes as a quoted text. -/
def quoteBytes (bytes : ByteArray) : String :=
  let list := bytes.toList
  String.ofList ('"' :: (escapeBytes list.length list ++ ['"']))

/-- A text as a quoted text. -/
def quote (s : String) : String := String.ofList ('"' :: (s.toList.flatMap escapeChar ++ ['"']))

end Text
end Moniker
