/-
# Flags

A command line mixes flags with arguments.  A flag has a name and perhaps a
letter, and takes a value:

| written | means |
| --- | --- |
| `--name=value`, `--name value` | the flag of that name |
| `-n=value`, `-nvalue`, `-n value` | the flag of that letter |
| `--name`, `-n` | a flag that can do without a value |
| `-abc` | several letters, if `a` and `b` can do without a value |
| `--` | only arguments from here on |

A flag that was not given has no value.  A list given twice is both lists, one
after the other; of other values given twice the last one counts.
-/

import Moniker.Data.Numeral
import Moniker.Text.Quoted

namespace Moniker

/-- What the value of a flag is. -/
inductive FlagKind where
  | text
  | truth
  | count
  | whole
  | texts
deriving DecidableEq, Inhabited

/-- A flag that a command knows. -/
structure Flag where
  name : String
  letter : Option Char := none
  kind : FlagKind := .text
deriving DecidableEq, Inhabited

/-- The value of a flag that was given. -/
inductive FlagValue where
  | text (s : String)
  | truth (b : Bool)
  | whole (n : Int)
  | texts (items : List String)
deriving DecidableEq, Inhabited

/-- The flags that were given, by name. -/
abbrev FlagValues := List (String × FlagValue)

/-- Why flags cannot be read. -/
inductive FlagError where
  | badSyntax (written : String)
  | unknownName (name : String)
  | unknownLetter (letter : Char) (written : String)
  | nameNeedsValue (written : String)
  | letterNeedsValue (letter : Char) (written : String)
  | badValue (flag : Flag) (value reason : String)
deriving DecidableEq, Inhabited

namespace Flag

/-- What a flag means that is given without a value. -/
def bare? (f : Flag) : Option String :=
  match f.kind with
  | .truth => some "true"
  | .count => some "+1"
  | _ => none

/-- A flag as messages name it. -/
def title (f : Flag) : String :=
  match f.letter with
  | some c => "-" ++ String.ofList [c] ++ ", --" ++ f.name
  | none => "--" ++ f.name

end Flag

/-- A character between single quotes. -/
def quotedLetter (c : Char) : String :=
  let tick := Char.ofNat 0x27
  let inner := if c = tick then ['\\', c] else if c = '"' then [c] else Text.escapeChar c
  String.ofList (tick :: (inner ++ [tick]))

/-- The byte a character begins with, as a character. -/
def firstByte (c : Char) : Char :=
  Char.ofNat (((Text.encode (String.ofList [c])).toList.head?.map UInt8.toNat).getD 0)

/-- The text of an error. A letter is shown by the byte it begins with. -/
def FlagError.message : FlagError → String
  | badSyntax written => "bad flag syntax: " ++ written
  | unknownName name => "unknown flag: --" ++ name
  | unknownLetter c written =>
    "unknown shorthand flag: " ++ quotedLetter (firstByte c) ++ " in -" ++ written
  | nameNeedsValue written => "flag needs an argument: " ++ written
  | letterNeedsValue c written =>
    "flag needs an argument: " ++ quotedLetter c ++ " in -" ++ written
  | badValue f value reason =>
    "invalid argument " ++ Text.quote value ++ " for " ++ Text.quote f.title ++ " flag: " ++ reason

/-! ## Values -/

/-- A truth value as it may be written. -/
def readTruth? (s : String) : Option Bool :=
  if ["1", "t", "T", "TRUE", "true", "True"].contains s then some true
  else if ["0", "f", "F", "FALSE", "false", "False"].contains s then some false
  else none

/-- Why a value is not of a kind. -/
def notRead (kind value problem : String) : String :=
  "strconv." ++ kind ++ ": parsing " ++ Text.quote value ++ ": " ++ problem

/-- A whole number, or why there is none. -/
def readWhole (s : String) : Except String Int :=
  match Numeral.anyWhole? s with
  | none => .error (notRead "ParseInt" s "invalid syntax")
  | some n =>
    if Numeral.fits n then .ok n else .error (notRead "ParseInt" s "value out of range")

namespace CommaList

/-- Where a list is being read: line and column, from one on. -/
structure Mark where
  line : Nat := 1
  column : Nat := 1
deriving DecidableEq, Inhabited

/-- The place after a character. -/
def Mark.after (m : Mark) (c : Char) : Mark :=
  if c = '\n' then { line := m.line + 1, column := 1 }
  else { m with column := m.column + c.utf8Size }

/-- The complaint about a list that began on a line. -/
def complaint (began : Nat) (m : Mark) (problem : String) : String :=
  let place := "parse error on line " ++ toString m.line ++ ", column " ++ toString m.column
  (if began = m.line then "" else "record on line " ++ toString began ++ "; ")
    ++ place ++ ": " ++ problem

/-- A quote where none may stand. -/
def bareQuote : String := "bare \" in non-quoted field"

/-- A quoted item that goes on after its end, or has none. -/
def openQuote : String := "extraneous or missing \" in quoted-field"

/-- What comes next in a list. -/
inductive Stage where
  /-- A new item. -/
  | start
  /-- More of an item without quotes. -/
  | bare
  /-- More of an item between quotes. -/
  | quoted
  /-- The end of a quoted item, or a quote in it written twice. -/
  | closing (quote : Mark)
deriving DecidableEq, Inhabited

/-- Reads the items of a list, up to the end of its line. `item` and `done` are kept
in reverse. -/
def items (began : Nat) :
    Stage → Mark → List Char → List String → List Char → Except String (List String)
  | .quoted, m, _, _, [] => .error (complaint began m openQuote)
  | _, _, item, done, [] => .ok ((String.ofList item.reverse :: done).reverse)
  | .quoted, m, item, done, c :: rest =>
    if c = '"' then items began (.closing m) (m.after c) item done rest
    else items began .quoted (m.after c) (c :: item) done rest
  | .closing q, m, item, done, c :: rest =>
    if c = '"' then items began .quoted (m.after c) (c :: item) done rest
    else if c = ',' then
      items began .start (m.after c) [] (String.ofList item.reverse :: done) rest
    else if c = '\n' then .ok ((String.ofList item.reverse :: done).reverse)
    else .error (complaint began q openQuote)
  | stage, m, item, done, c :: rest =>
    if c = '"' then
      if stage = .start then items began .quoted (m.after c) [] done rest
      else .error (complaint began m bareQuote)
    else if c = ',' then
      items began .start (m.after c) [] (String.ofList item.reverse :: done) rest
    else if c = '\n' then .ok ((String.ofList item.reverse :: done).reverse)
    else items began .bare (m.after c) (c :: item) done rest

/-- A text with one way to end a line. -/
def plainLines : List Char → List Char
  | [] => []
  | '\r' :: '\n' :: rest => '\n' :: plainLines rest
  | ['\r'] => []
  | c :: rest => c :: plainLines rest

/-- Reads the first line with something in it as a list of items with commas between
them; nothing is the empty list. -/
def parse (s : String) : Except String (List String) :=
  if s = "" then .ok []
  else
    let cs := plainLines s.toList
    let blank := (cs.takeWhile (· = '\n')).length
    match cs.drop blank with
    | [] => .error "EOF"
    | cs => items (blank + 1) .start { line := blank + 1 } [] [] cs

end CommaList

namespace FlagValues

/-- The value of a flag, if it was given. -/
def get? (vs : FlagValues) (name : String) : Option FlagValue :=
  (vs.find? fun v => v.1 == name).map Prod.snd

/-- Was the flag given? -/
def given (vs : FlagValues) (name : String) : Bool := (vs.get? name).isSome

/-- Gives a flag a value instead of the one it has. -/
def put (vs : FlagValues) (name : String) (v : FlagValue) : FlagValues :=
  (name, v) :: vs.filter fun e => e.1 != name

/-- A text, or the usual one. -/
def text (vs : FlagValues) (name usual : String) : String :=
  match vs.get? name with
  | some (.text s) => s
  | _ => usual

/-- A truth value that was given. -/
def truth? (vs : FlagValues) (name : String) : Option Bool :=
  match vs.get? name with
  | some (.truth b) => some b
  | _ => none

/-- A truth value; what was not given is false. -/
def isSet (vs : FlagValues) (name : String) : Bool := (vs.truth? name).getD false

/-- A whole number that was given. -/
def whole? (vs : FlagValues) (name : String) : Option Int :=
  match vs.get? name with
  | some (.whole n) => some n
  | _ => none

/-- A list; what was not given is empty. -/
def texts (vs : FlagValues) (name : String) : List String :=
  match vs.get? name with
  | some (.texts items) => items
  | _ => []

/-- Takes the value written for a flag. -/
def take (vs : FlagValues) (f : Flag) (written : String) : Except FlagError FlagValues :=
  let refuse (reason : String) : FlagError := .badValue f written reason
  match f.kind with
  | .text => .ok (vs.put f.name (.text written))
  | .truth =>
    match readTruth? written with
    | some b => .ok (vs.put f.name (.truth b))
    | none => .error (refuse (notRead "ParseBool" written "invalid syntax"))
  | .count =>
    if written = "+1" then .ok (vs.put f.name (.whole ((vs.whole? f.name).getD 0 + 1)))
    else (readWhole written).mapError refuse |>.map fun n => vs.put f.name (.whole n)
  | .whole => (readWhole written).mapError refuse |>.map fun n => vs.put f.name (.whole n)
  | .texts =>
    (CommaList.parse written).mapError refuse |>.map fun items =>
      vs.put f.name (.texts (vs.texts f.name ++ items))

end FlagValues

/-! ## Reading -/

/-- The flag of a name. -/
def flagNamed? (flags : List Flag) (name : String) : Option Flag :=
  flags.find? fun f => f.name == name

/-- The flag of a letter. -/
def flagLettered? (flags : List Flag) (letter : Char) : Option Flag :=
  flags.find? fun f => f.letter == some letter

/-- The parts of a text before and after its first `=`. -/
def splitEquals (cs : List Char) : List Char × Option (List Char) :=
  match cs.dropWhile (· ≠ '=') with
  | [] => (cs, none)
  | _ :: rest => (cs.takeWhile (· ≠ '='), some rest)

/-- Reads a flag that is given by name. `written` is what stands after the two dashes
and `next?` the word after it. Tells whether that word was taken as the value. -/
def readNamed (flags : List Flag) (vs : FlagValues) (written : List Char)
    (next? : Option String) : Except FlagError (FlagValues × Bool) :=
  let shown := "--" ++ String.ofList written
  match written with
  | '-' :: _ => .error (.badSyntax shown)
  | '=' :: _ => .error (.badSyntax shown)
  | _ =>
    let (name, value?) := splitEquals written
    match flagNamed? flags (String.ofList name) with
    | none => .error (.unknownName (String.ofList name))
    | some f =>
      match value?, f.bare?, next? with
      | some value, _, _ => (vs.take f (String.ofList value)).map fun vs => (vs, false)
      | none, some bare, _ => (vs.take f bare).map fun vs => (vs, false)
      | none, none, some next => (vs.take f next).map fun vs => (vs, true)
      | none, none, none => .error (.nameNeedsValue shown)

/-- Reads flags that are given by letters. What begins with `test.` is passed over. -/
def readLetters (flags : List Flag) (next? : Option String) :
    FlagValues → List Char → Except FlagError (FlagValues × Bool)
  | vs, [] => .ok (vs, false)
  | vs, 't' :: 'e' :: 's' :: 't' :: '.' :: _ => .ok (vs, false)
  | vs, c :: rest =>
    let shown := String.ofList (c :: rest)
    match flagLettered? flags c with
    | none => .error (.unknownLetter c shown)
    | some f =>
      match rest, f.bare?, next? with
      | '=' :: v :: value, _, _ =>
        (vs.take f (String.ofList (v :: value))).map fun vs => (vs, false)
      | _, some bare, _ =>
        match vs.take f bare with
        | .ok vs => readLetters flags next? vs rest
        | .error e => .error e
      | v :: value, none, _ => (vs.take f (String.ofList (v :: value))).map fun vs => (vs, false)
      | [], none, some next => (vs.take f next).map fun vs => (vs, true)
      | [], none, none => .error (.letterNeedsValue c shown)

/-- What a command line says. -/
structure FlagsAndArguments where
  flags : FlagValues := []
  arguments : List String := []
deriving DecidableEq, Inhabited

/-- Reads the words of a command line; `fuel` is at least their number. -/
def readWords (flags : List Flag) : Nat → FlagsAndArguments → List String →
    Except FlagError FlagsAndArguments
  | 0, line, _ => .ok line
  | _ + 1, line, [] => .ok line
  | fuel + 1, line, word :: rest =>
    let goOn (read : Except FlagError (FlagValues × Bool)) :=
      match read with
      | .error e => .error e
      | .ok (vs, taken) =>
        readWords flags fuel { line with flags := vs } (if taken then rest.drop 1 else rest)
    match word.toList with
    | ['-', '-'] => .ok { line with arguments := line.arguments ++ rest }
    | '-' :: '-' :: written => goOn (readNamed flags line.flags written rest.head?)
    | '-' :: c :: written => goOn (readLetters flags rest.head? line.flags (c :: written))
    | _ => readWords flags fuel { line with arguments := line.arguments ++ [word] } rest

/-- Reads a command line. -/
def readFlags (flags : List Flag) (words : List String) : Except FlagError FlagsAndArguments :=
  readWords flags words.length {} words

end Moniker
