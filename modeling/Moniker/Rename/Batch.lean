/-
# Batches of rename directives

Source: `parseDirectives`, `validTarget`, `isIdentifierName`.

A batch is a JSON document: a list of directives, or an object that has directives
under `renames`, under `directives` or under both, in this order.

A directive names a file, a position and a new name, and perhaps the name it
replaces.  Keys may be in any case, unknown ones are passed over, and `null` stands
for nothing.
-/

import Moniker.Data.Numeral
import Moniker.Naming.Keywords
import Moniker.Rename.Location
import Moniker.Text.Case
import Moniker.Text.Classes

namespace Moniker

/-- Can the text name a declaration? -/
def isIdentifierName (s : String) : Bool :=
  let isStart (c : Char) : Bool := c = '$' || c = '_' || Text.isLetter c
  match s.toList with
  | [] => false
  | c :: rest => isStart c && rest.all fun c => isStart c || Text.isDigit c || Text.isMark c

/-- Can the target replace the old name? A private name stays private, and a plain name stays plain
and does not become a keyword. -/
def isValidTarget (oldName target : String) : Bool :=
  match oldName.toList, target.toList with
  | '#' :: _, '#' :: rest => isIdentifierName (String.ofList rest)
  | '#' :: _, _ => false
  | _, _ => isIdentifierName target && !isKeyword target

namespace Batch

/-- Takes a text into a field. -/
def setText (set : String → Directive) (d : Directive) : Value → Option Directive
  | .str s => some (set s)
  | .null => some d
  | _ => none

/-- Takes one field into a directive. -/
def setField (d : Directive) (key : String) (v : Value) : Option Directive :=
  match Text.lower key with
  | "file" => setText (fun s => { d with file := s }) d v
  | "original" => setText (fun s => { d with oldName := s }) d v
  | "target" => setText (fun s => { d with target := s }) d v
  | "pos" =>
    match v with
    | .int n => if Numeral.fits n then some { d with pos := n } else none
    | .null => some d
    | _ => none
  | _ => some d

/-- Reads a directive. -/
def directive? : Value → Option Directive
  | .record fields =>
    fields.foldlM (fun d f => setField d f.1 f.2)
      { file := "", pos := 0, oldName := "", target := "" }
  | .null => some { file := "", pos := 0, oldName := "", target := "" }
  | _ => none

/-- Reads a list of directives. -/
def directives? : Value → Option (List Directive)
  | .list items => items.mapM directive?
  | .null => some []
  | _ => none

/-- Takes one field of an object into the two lists of a batch. -/
def setList (lists : List Directive × List Directive) (key : String) (v : Value) :
    Option (List Directive × List Directive) :=
  match Text.lower key, v with
  | "renames", .null => some lists
  | "directives", .null => some lists
  | "renames", v => (directives? v).map fun ds => (ds, lists.2)
  | "directives", v => (directives? v).map fun ds => (lists.1, ds)
  | _, _ => some lists

/-- The directives of a document. -/
def ofValue? : Value → Option (List Directive)
  | .list items => items.mapM directive?
  | .record fields =>
    (fields.foldlM (fun ls f => setList ls f.1 f.2) ([], [])).map fun ls => ls.1 ++ ls.2
  | .null => some []
  | _ => none

/-- The failure of a command on a batch that cannot be read. -/
def malformed : Failure := .of .configInvalid "malformed directives"

/-- Reads a batch. -/
def parse (text : String) : Except Failure (List Directive) :=
  match (Json.parse? (String.ofList (Text.trim text.toList))).bind ofValue? with
  | some ds => .ok ds
  | none => .error malformed

end Batch
end Moniker
