/-
# Texts as bytes

Source offsets count bytes of UTF-8, and an edit may cut a text anywhere, so a
file's contents are kept as bytes.  Names and messages are `String`s; a piece of
a file becomes a `String` by `decode`.

| bytes | read as |
| --- | --- |
| a well-formed character | that character |
| any other byte | `U+FFFD`, one per byte |

Well-formed means shortest form, no surrogate, nothing above `U+10FFFF`.
-/

namespace Moniker
namespace Text

/-- The character that stands for a byte which begins no character. -/
def replacement : Char := Char.ofNat 0xFFFD

/-- A byte that continues a character, with the six bits it carries. -/
def tail? (b : UInt8) : Option Nat :=
  if 0x80 ≤ b.toNat ∧ b.toNat ≤ 0xBF then some (b.toNat - 0x80) else none

/-- The character a list of bytes begins with and the number of bytes it takes,
`none` if the first byte begins no character. -/
def first? : List UInt8 → Option (Char × Nat)
  | [] => none
  | b :: rest =>
    let lead := b.toNat
    if lead < 0x80 then some (Char.ofNat lead, 1)
    else if lead < 0xC2 then none
    else if lead < 0xE0 then
      match rest with
      | b1 :: _ => (tail? b1).map fun t1 => (Char.ofNat ((lead - 0xC0) * 64 + t1), 2)
      | _ => none
    else if lead < 0xF0 then
      match rest with
      | b1 :: b2 :: _ =>
        match tail? b1, tail? b2 with
        | some t1, some t2 =>
          let code := (lead - 0xE0) * 4096 + t1 * 64 + t2
          if code < 0x800 ∨ (0xD800 ≤ code ∧ code < 0xE000) then none
          else some (Char.ofNat code, 3)
        | _, _ => none
      | _ => none
    else if lead < 0xF5 then
      match rest with
      | b1 :: b2 :: b3 :: _ =>
        match tail? b1, tail? b2, tail? b3 with
        | some t1, some t2, some t3 =>
          let code := (lead - 0xF0) * 262144 + t1 * 4096 + t2 * 64 + t3
          if code < 0x10000 ∨ 0x110000 ≤ code then none
          else some (Char.ofNat code, 4)
        | _, _, _ => none
      | _ => none
    else none

/-- The first character of a nonempty list of bytes and its width; a byte that
begins no character counts as a replacement character of width one. -/
def next (bytes : List UInt8) : Char × Nat :=
  (first? bytes).getD (replacement, 1)

/-- The characters of a list of bytes, each with its width in bytes.  `fuel`
bounds the number of characters; the length of the list is always enough. -/
def scan : Nat → List UInt8 → List (Char × Nat)
  | 0, _ => []
  | _ + 1, [] => []
  | fuel + 1, b :: rest =>
    let step := next (b :: rest)
    step :: scan fuel ((b :: rest).drop step.2)

/-- The characters of a text with their widths. -/
def runes (bytes : List UInt8) : List (Char × Nat) := scan bytes.length bytes

/-- Reads bytes as a string. -/
def decode (bytes : ByteArray) : String :=
  match String.fromUTF8? bytes with
  | some s => s
  | none => String.ofList ((runes bytes.toList).map Prod.fst)

/-- The bytes of a string. -/
def encode (s : String) : ByteArray := s.toUTF8

/-- The bytes from `start` up to `stop`. -/
def slice (bytes : ByteArray) (start stop : Nat) : ByteArray := bytes.extract start stop

/-- Splits characters at a separator; there is always one more piece than there
are separators. -/
def splitChars (sep : Char) : List Char → List (List Char)
  | [] => [[]]
  | c :: rest =>
    if c = sep then [] :: splitChars sep rest
    else
      match splitChars sep rest with
      | [] => [[c]]
      | piece :: pieces => (c :: piece) :: pieces

/-- The pieces of a text between separators, empty ones included. -/
def split (sep : Char) (s : String) : List String := (splitChars sep s.toList).map String.ofList

/-- Joins strings with a separator. -/
def join (sep : String) (parts : List String) : String := sep.intercalate parts

/-- Strings in the order of their bytes. For well-formed texts this is the order
of their characters. -/
def lexLe (a b : String) : Bool := decide (a ≤ b)

/-- Sorts strings in byte order. -/
def sort (xs : List String) : List String := xs.mergeSort lexLe

/-- Drops `head` from the front of `s`, if it stands there. -/
def dropHead? (s head : String) : Option String :=
  if head.toList.isPrefixOf s.toList then some (String.ofList (s.toList.drop head.length)) else none

/-- Drops `ending` from the back of `s`, if it stands there. -/
def dropEnding? (s ending : String) : Option String :=
  if ending.toList.isSuffixOf s.toList then
    some (String.ofList (s.toList.take (s.length - ending.length)))
  else none

/-- Does `s` end in `ending`? -/
def endsIn (s ending : String) : Bool := ending.toList.isSuffixOf s.toList

/-- Does `s` begin with `head`? -/
def startsIn (s head : String) : Bool := head.toList.isPrefixOf s.toList

/-- Is the character a blank? -/
def isBlank (c : Char) : Bool :=
  let n := c.toNat
  (9 ≤ n && n ≤ 13) || n = 0x20 || n = 0x85 || n = 0xA0 || n = 0x1680
  || (0x2000 ≤ n && n ≤ 0x200A) || n = 0x2028 || n = 0x2029 || n = 0x202F || n = 0x205F
  || n = 0x3000

/-- A text without blanks around it. -/
def trim (cs : List Char) : List Char :=
  ((cs.dropWhile isBlank).reverse.dropWhile isBlank).reverse

end Text
end Moniker
