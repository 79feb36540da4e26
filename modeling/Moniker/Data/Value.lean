/-
# Values without a type of their own

A `Value` is what a data format such as JSON can say: nothing, a truth value, a
number, a text, a list, or a record of named values.  The fields of a record
keep the order in which they were written; the formats that sort them do so when
they write.

Whole numbers are kept apart from floating-point numbers because the writers
print them differently.
-/

namespace Moniker

/-- A value of a data format. -/
inductive Value where
  | null
  | bool (b : Bool)
  | int (n : Int)
  | num (x : Float)
  | str (s : String)
  | list (items : List Value)
  | record (fields : List (String × Value))
deriving Inhabited

namespace Value

/-- The value of a field of a record; the last one of that name counts. -/
def field? (v : Value) (name : String) : Option Value :=
  match v with
  | .record fields => (fields.reverse.find? fun f => f.1 == name).map Prod.snd
  | _ => none

/-- A list of texts as a value. -/
def ofTexts (xs : List String) : Value := .list (xs.map .str)

/-- A field that is left out where its list is empty. -/
def listField (key : String) (items : List Value) : List (String × Value) :=
  if items.isEmpty then [] else [(key, .list items)]

/-- A field that is left out where its text is empty. -/
def textField (key s : String) : List (String × Value) :=
  if s = "" then [] else [(key, .str s)]

/-- A field that is left out where it is false. -/
def flagField (key : String) (b : Bool) : List (String × Value) :=
  if b then [(key, .bool true)] else []

/-- The text of a field. -/
def textAt (v : Value) (key : String) : String :=
  match v.field? key with
  | some (.str s) => s
  | _ => ""

/-- The whole number of a field. -/
def intAt (v : Value) (key : String) : Int :=
  match v.field? key with
  | some (.int n) => n
  | _ => 0

/-- The truth value of a field. -/
def flagAt (v : Value) (key : String) : Bool :=
  match v.field? key with
  | some (.bool b) => b
  | _ => false

/-- The list of a field, if there is one. -/
def listingAt {α : Type} (v : Value) (key : String) (read : Value → α) : Option (List α) :=
  match v.field? key with
  | some (.list items) => some (items.map read)
  | _ => none

/-- The list of a field. -/
def itemsAt {α : Type} (v : Value) (key : String) (read : Value → α) : List α :=
  (v.listingAt key read).getD []

/-- The record of a field, if there is one. -/
def recordAt {α : Type} (v : Value) (key : String) (read : Value → α) : Option α :=
  match v.field? key with
  | some (.record fields) => some (read (.record fields))
  | _ => none

/-- The whole number of a value. -/
def asInt : Value → Int
  | .int n => n
  | _ => 0

/-- The text of a value. -/
def asText : Value → String
  | .str s => s
  | _ => ""

end Value
end Moniker
