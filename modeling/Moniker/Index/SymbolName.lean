/-
# Names of indexed symbols

Source: `scip.ParseIdentifier`, `Identifier.IsMember`, `Identifier.SimpleName`,
`lastUnquoted`.

An index names a symbol by a line of fields,

    scheme manager package version descriptor

or, if the symbol belongs to one document only, by `local` and a number.  The
descriptor is the path from the package to the symbol; its names may stand between
backticks, which hide the marks inside them.

| descriptor ends in | names |
| --- | --- |
| `Box#` | a type |
| `Box#size.` | a member of a type |
| `grow().` | a function |
-/

import Moniker.Text.Bytes

namespace Moniker

/-- A symbol's name taken apart. -/
structure SymbolName where
  scheme : String := ""
  manager : String := ""
  package : String := ""
  descriptor : String := ""
  isLocal : Bool := false
deriving DecidableEq, Inhabited

/-- Why a text names no symbol. -/
inductive SymbolNameError where
  | empty
  | malformed (text : String)
deriving DecidableEq, Inhabited

/-- The text of an error. -/
def SymbolNameError.message : SymbolNameError → String
  | empty => "empty SCIP identifier"
  | malformed text => "invalid SCIP identifier format: " ++ text

namespace SymbolName

/-- Is it the name of a symbol of one document? -/
def namesLocal (s : String) : Bool := Text.startsIn s "local "

/-- Takes a name apart. The version is not kept, and the descriptor, which may
hold blanks, is all that follows it. -/
def parse (s : String) : Except SymbolNameError SymbolName :=
  if s = "" then .error .empty
  else if namesLocal s then .ok { isLocal := true }
  else
    match Text.split ' ' s with
    | [scheme, manager, package, descriptor] => .ok { scheme, manager, package, descriptor }
    | scheme :: manager :: package :: _ :: rest =>
      .ok { scheme, manager, package, descriptor := Text.join " " rest }
    | _ => .error (.malformed s)

/-- A backtick. -/
def tick : Char := Char.ofNat 0x60

/-- What follows the last character outside backticks for which `mark` holds, if
there is one. `after` is what follows the last one so far, in reverse. -/
def afterLast (mark : Char → Bool) : List Char → Bool → Option (List Char) → Option (List Char)
  | [], _, after => after.map List.reverse
  | c :: rest, quoted, after =>
    if c = tick then afterLast mark rest (!quoted) (after.map (c :: ·))
    else if !quoted && mark c then afterLast mark rest quoted (some [])
    else afterLast mark rest quoted (after.map (c :: ·))

/-- Does the name stand for a member of a type? -/
def isMember (n : SymbolName) : Bool :=
  match afterLast (· = '#') n.descriptor.toList false none with
  | some (_ :: _) => true
  | _ => false

/-- Drops an ending once, if it is there. -/
def trimEnding (s ending : String) : String := (Text.dropEnding? s ending).getD s

/-- The last name of the descriptor, without marks and backticks. -/
def simple (n : SymbolName) : String :=
  let body := trimEnding (trimEnding (trimEnding n.descriptor ".") "#") "()"
  let last := (afterLast (fun c => c = '/' || c = '#' || c = '.') body.toList false none).getD
    body.toList
  let isTick (c : Char) : Bool := c = tick
  String.ofList ((last.dropWhile isTick).reverse.dropWhile isTick).reverse

end SymbolName
end Moniker
