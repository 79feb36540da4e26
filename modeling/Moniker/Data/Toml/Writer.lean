/-
# Writing TOML

A record becomes a document of `key = value` lines, each table after the plain
values around it.  Keys are in byte order.  A list of records becomes an array of
tables; inside any other list a record is written on the line.  Fields that are
null are left out; a list must not hold null.

Tables below a table are indented by two blanks a level.
-/

import Moniker.Data.Decimal
import Moniker.Data.Value
import Moniker.Text.Quoted

namespace Moniker
namespace Toml

/-- How a character is written between double quotes. -/
def escapeChar (c : Char) : List Char :=
  if c = '"' ∨ c = '\\' then ['\\', c]
  else if c.toNat = 8 then ['\\', 'b']
  else if c = '\t' then ['\\', 't']
  else if c = '\n' then ['\\', 'n']
  else if c.toNat = 12 then ['\\', 'f']
  else if c = '\r' then ['\\', 'r']
  else if c.toNat < 0x20 ∨ c.toNat = 0x7F then '\\' :: 'u' :: Text.hex 4 c.toNat
  else [c]

/-- A text between double quotes. -/
def quote (s : String) : String := String.ofList ('"' :: (s.toList.flatMap escapeChar ++ ['"']))

/-- Can the character stand in a key without quotes? -/
def isBare (c : Char) : Bool :=
  ('a' ≤ c && c ≤ 'z') || ('A' ≤ c && c ≤ 'Z') || c.isDigit || c = '_' || c = '-'

/-- A key, with quotes if it needs them. -/
def writeKey (k : String) : String := if k ≠ "" && k.toList.all isBare then k else quote k

/-- A number with a fraction or an exponent. -/
def writeDouble (x : Float) : String :=
  let s := Decimal.general x
  if s.toList.any fun c => c = 'e' || c = '.' then s else s ++ ".0"

/-- Is the value a record? -/
def isRecord : Value → Bool
  | .record _ => true
  | _ => false

/-- Is the value null? -/
def isNull : Value → Bool
  | .null => true
  | _ => false

/-- Is the value a list of records, and not empty? -/
def isTableArray : Value → Bool
  | .list items => !items.isEmpty && items.all isRecord
  | _ => false

/-- Is the value written as tables of its own? -/
def isTable (v : Value) : Bool := isRecord v || isTableArray v

/-- Fields in the order in which they are written: plain values, then tables. -/
def arrange (fields : List (String × Value)) : List (String × Value) :=
  let sorted := fields.mergeSort fun a b => Text.lexLe a.1 b.1
  sorted.filter (fun f => !isTable f.2) ++ sorted.filter fun f => isTable f.2

mutual

/-- Every record with its fields in the order in which they are written. -/
def arranged : Value → Value
  | .list items => .list (arrangedItems items)
  | .record fields => .record (arrange (arrangedFields fields))
  | v => v

/-- The items of a list, arranged. -/
def arrangedItems : List Value → List Value
  | [] => []
  | v :: rest => arranged v :: arrangedItems rest

/-- The fields of a record, their values arranged. -/
def arrangedFields : List (String × Value) → List (String × Value)
  | [] => []
  | (k, v) :: rest => (k, arranged v) :: arrangedFields rest

end

mutual

/-- Has a list in the value an item that is null? -/
def hasNullItem : Value → Bool
  | .list items => anyNullItem items
  | .record fields => anyNullField fields
  | _ => false

/-- Is one of the items null, or has it such a list? -/
def anyNullItem : List Value → Bool
  | [] => false
  | v :: rest => isNull v || hasNullItem v || anyNullItem rest

/-- Has one of the fields such a list? -/
def anyNullField : List (String × Value) → Bool
  | [] => false
  | (_, v) :: rest => hasNullItem v || anyNullField rest

end

mutual

/-- A value on the line. -/
def inline : Value → String
  | .null => ""
  | .bool b => if b then "true" else "false"
  | .int n => toString n
  | .num x => writeDouble x
  | .str s => quote s
  | .list items => "[" ++ Text.join ", " (inlineItems items) ++ "]"
  | .record fields => "\x7b" ++ inlineFields fields ++ "\x7d"

/-- Items on the line. -/
def inlineItems : List Value → List String
  | [] => []
  | v :: rest => inline v :: inlineItems rest

/-- Fields on the line. A null field is left out, the comma before it is not. -/
def inlineFields : List (String × Value) → String
  | [] => ""
  | (k, v) :: rest =>
    if isNull v then inlineFields rest
    else
      writeKey k ++ " = " ++ inline v ++ (if rest.isEmpty then "" else ", ") ++ inlineFields rest

end

/-- The margin below `depth` keys. -/
def margin (depth : Nat) : String := String.ofList (List.replicate (2 * depth) ' ')

/-- Keys joined by dots. -/
def dotted (path : List String) : String := Text.join "." (path.map writeKey)

/-- A line break, unless nothing has been written. -/
def separate (done : String) : String := if done.isEmpty then done else done ++ "\n"

mutual

/-- Writes the fields of a table after what is done. `path` leads to the table. -/
def writeFields (path : List String) : List (String × Value) → String → String
  | [], done => done
  | (k, .null) :: rest, done =>
    let _ := k
    writeFields path rest done
  | (k, .record fields) :: rest, done =>
    let inner := path ++ [k]
    let opened := if path.isEmpty then separate done else done
    let headed := opened ++ margin path.length ++ "[" ++ dotted inner ++ "]\n"
    writeFields path rest (writeFields inner fields headed)
  | (k, .list items) :: rest, done =>
    if isTableArray (.list items) then
      writeFields path rest (writeTables (path ++ [k]) items done)
    else
      writeFields path rest
        (done ++ margin path.length ++ writeKey k ++ " = " ++ inline (.list items) ++ "\n")
  | (k, v) :: rest, done =>
    writeFields path rest (done ++ margin path.length ++ writeKey k ++ " = " ++ inline v ++ "\n")

/-- Writes the tables of an array after what is done. -/
def writeTables (path : List String) : List Value → String → String
  | [], done => done
  | .record fields :: rest, done =>
    let headed := separate done ++ margin (path.length - 1) ++ "[[" ++ dotted path ++ "]]\n"
    writeTables path rest (writeFields path fields headed)
  | _ :: rest, done => writeTables path rest done

end

/-- The fields of a document: a value that is no record stands under `items`. -/
def documentFields (v : Value) : List (String × Value) :=
  match arranged v with
  | .record fields => fields
  | w => [("items", w)]

/-- A value as a document, unless a list in it holds null. -/
def render? (v : Value) : Option String :=
  if hasNullItem v then none else some (writeFields [] (documentFields v) "")

end Toml
end Moniker
