/-
# Reading TOML

A document is a list of statements: `key = value` lines and the headings of tables
and of arrays of tables.  `parse?` reads the statements and puts them together into
a record; a key must not be set twice, and a heading must not reopen what is not a
table.

Dates and times are read and kept as texts of their own kind, since nothing here
has a use for them.
-/

import Moniker.Data.Instant
import Moniker.Data.Json

namespace Moniker
namespace Toml

/-- A value of a document. -/
inductive Node where
  | text (s : String)
  | whole (n : Int)
  | double (x : Float)
  | truth (b : Bool)
  | moment (s : String)
  | array (items : List Node)
  /-- A table; `closed` if it was written on a line and takes no more keys. -/
  | table (closed : Bool) (fields : List (String × Node))
  /-- An array of tables, made by headings. -/
  | tables (items : List (List (String × Node)))
deriving Inhabited

/-- One statement of a document. -/
inductive Statement where
  | assign (path : List String) (value : Node)
  | table (path : List String)
  | element (path : List String)
deriving Inhabited

/-- Drops blanks and tabs. -/
def skipBlanks : List Char → List Char
  | [] => []
  | c :: rest => if c = ' ' ∨ c = '\t' then skipBlanks rest else c :: rest

/-- Must a character be escaped everywhere? -/
def isControl (c : Char) : Bool := (c.toNat < 0x20 && c ≠ '\t') || c.toNat = 0x7F

/-- Drops a comment up to the end of its line; `none` if it holds a control
character. -/
def skipComment? : List Char → Option (List Char)
  | [] => some []
  | '\n' :: rest => some ('\n' :: rest)
  | '\r' :: '\n' :: rest => some ('\n' :: rest)
  | c :: rest => if isControl c then none else skipComment? rest

/-- Drops the rest of a line, which must be blank or a comment. -/
def endLine? (cs : List Char) : Option (List Char) :=
  match skipBlanks cs with
  | [] => some []
  | '\n' :: rest => some rest
  | '\r' :: '\n' :: rest => some rest
  | '#' :: rest =>
    match skipComment? rest with
    | some ('\n' :: after) => some after
    | some after => some after
    | none => none
  | _ => none

/-- Drops blanks, line ends and comments; `fuel` bounds the lines. -/
def skipLines? : Nat → List Char → Option (List Char)
  | 0, cs => some cs
  | fuel + 1, cs =>
    match skipBlanks cs with
    | '\n' :: rest => skipLines? fuel rest
    | '\r' :: '\n' :: rest => skipLines? fuel rest
    | '#' :: rest => (skipComment? rest).bind (skipLines? fuel)
    | rest => some rest

/-- The number that hexadecimal digits write. -/
def hexOf? (cs : List Char) : Option Nat :=
  cs.foldl (fun n c => do return 16 * (← n) + (← Json.hexValue? c)) (some 0)

/-- The character an escape of some digits stands for. -/
def escapeOf? (width : Nat) (cs : List Char) : Option (Char × List Char) := do
  if (cs.take width).length < width then none
  let n ← hexOf? (cs.take width)
  if (0xD800 ≤ n ∧ n < 0xE000) ∨ 0x110000 ≤ n then none
  else some (Char.ofNat n, cs.drop width)

/-- An escape after its backslash. -/
def escape? : List Char → Option (Char × List Char)
  | 'u' :: rest => escapeOf? 4 rest
  | 'U' :: rest => escapeOf? 8 rest
  | 'b' :: rest => some (Char.ofNat 8, rest)
  | 't' :: rest => some ('\t', rest)
  | 'n' :: rest => some ('\n', rest)
  | 'f' :: rest => some (Char.ofNat 12, rest)
  | 'r' :: rest => some ('\r', rest)
  | 'e' :: rest => some (Char.ofNat 0x1B, rest)
  | '"' :: rest => some ('"', rest)
  | '\\' :: rest => some ('\\', rest)
  | _ => none

/-- A single quote. -/
def tick : Char := Char.ofNat 0x27

/-- A text between double quotes, after the first one. -/
def basic? : Nat → List Char → List Char → Option (String × List Char)
  | 0, _, _ => none
  | fuel + 1, cs, done =>
    match cs with
    | [] => none
    | '"' :: rest => some (String.ofList done.reverse, rest)
    | '\\' :: rest => (escape? rest).bind fun (c, after) => basic? fuel after (c :: done)
    | c :: rest => if isControl c then none else basic? fuel rest (c :: done)

/-- A text between single quotes, after the first one. -/
def literal? : List Char → List Char → Option (String × List Char)
  | [], _ => none
  | c :: rest, done =>
    if c = tick then some (String.ofList done.reverse, rest)
    else if isControl c then none
    else literal? rest (c :: done)

/-- Three or more closing quotes: those after the first two that still belong to
the text, at most two, and the rest. -/
def closing? (quote : Char) (cs : List Char) : Option (List Char × List Char) :=
  let run := (cs.takeWhile (· = quote)).length
  if run < 3 then none
  else if 5 < run then none
  else some (List.replicate (run - 3) quote, cs.drop run)

/-- Drops a newline at the start of a text of several lines. -/
def dropNewline : List Char → List Char
  | '\n' :: rest => rest
  | '\r' :: '\n' :: rest => rest
  | cs => cs

/-- Drops blanks and line ends. -/
def skipWhite : List Char → List Char
  | [] => []
  | c :: rest => if c = ' ' ∨ c = '\t' ∨ c = '\n' ∨ c = '\r' then skipWhite rest else c :: rest

/-- Is only blank space left on the line? -/
def blankLine (cs : List Char) : Bool :=
  match skipBlanks cs with
  | '\n' :: _ => true
  | '\r' :: '\n' :: _ => true
  | _ => false

/-- A text of several lines. With `escapes`, a backslash begins an escape or joins
lines. -/
def multiline? (quote : Char) (escapes : Bool) :
    Nat → List Char → List Char → Option (String × List Char)
  | 0, _, _ => none
  | fuel + 1, cs, done =>
    match closing? quote cs with
    | some (more, rest) => some (String.ofList (done.reverse ++ more), rest)
    | none =>
      match cs with
      | [] => none
      | '\r' :: '\n' :: rest => multiline? quote escapes fuel rest ('\n' :: '\r' :: done)
      | c :: rest =>
        if c = '\\' && escapes then
          if blankLine rest then multiline? quote escapes fuel (skipWhite rest) done
          else (escape? rest).bind fun (e, after) => multiline? quote escapes fuel after (e :: done)
        else if isControl c && c ≠ '\n' then none
        else multiline? quote escapes fuel rest (c :: done)

/-- Can the character stand in a key without quotes? -/
def isKeyChar (c : Char) : Bool := c.isAlpha || c.isDigit || c = '_' || c = '-'

/-- One part of a key. -/
def keyPart? (cs : List Char) : Option (String × List Char) :=
  match cs with
  | [] => none
  | '"' :: rest => basic? (rest.length + 1) rest []
  | c :: rest =>
    if c = tick then literal? rest []
    else
      let word := cs.takeWhile isKeyChar
      if word.isEmpty then none else some (String.ofList word, cs.drop word.length)

/-- A key: parts with dots between them. -/
def key? : Nat → List Char → Option (List String × List Char)
  | 0, _ => none
  | fuel + 1, cs => do
    let (part, rest) ← keyPart? (skipBlanks cs)
    match skipBlanks rest with
    | '.' :: more =>
      let (parts, after) ← key? fuel more
      return (part :: parts, after)
    | after => return ([part], after)

/-- Digits in a base with lines between them: every line stands between digits. -/
def digitsOf? (base : Nat) (cs : List Char) : Option Nat :=
  let isDigit (c : Char) : Bool := (Json.hexValue? c).any fun v => v < base
  let parts := Text.splitChars '_' cs
  if parts.all fun p => !p.isEmpty && p.all isDigit then
    some (parts.flatten.foldl (fun n c => base * n + (Json.hexValue? c).getD 0) 0)
  else none

/-- A whole number of the usual size. -/
def wholeOf? (negative : Bool) (n : Nat) : Option Node :=
  let v : Int := if negative then -n else n
  if -9223372036854775808 ≤ v ∧ v ≤ 9223372036854775807 then some (.whole v) else none

/-- Has a number in base ten a zero before other digits? -/
def leadsWithZero (cs : List Char) : Bool :=
  match cs with
  | '0' :: _ :: _ => true
  | _ => false

/-- The places of a number after its point. -/
def places? (cs : List Char) : Option (List Char × List Char) :=
  match cs with
  | '.' :: rest =>
    let ds := rest.takeWhile fun c => c.isDigit || c = '_'
    (digitsOf? 10 ds).map fun _ => (ds.filter (· ≠ '_'), rest.drop ds.length)
  | _ => some ([], cs)

/-- The exponent of a number. -/
def power? (cs : List Char) : Option Int :=
  match cs with
  | [] => some 0
  | e :: rest =>
    if e = 'e' ∨ e = 'E' then
      match rest with
      | '-' :: ds => (digitsOf? 10 ds).map fun n => -(n : Int)
      | '+' :: ds => (digitsOf? 10 ds).map fun n => (n : Int)
      | ds => (digitsOf? 10 ds).map fun n => (n : Int)
    else none

/-- A number with a fraction or an exponent. -/
def doubleOf? (negative : Bool) (cs : List Char) : Option Node := do
  let whole := cs.takeWhile fun c => c.isDigit || c = '_'
  let _ ← digitsOf? 10 whole
  let bare := whole.filter (· ≠ '_')
  if leadsWithZero bare then none
  let (places, rest) ← places? (cs.drop whole.length)
  let e ← power? rest
  return .double (Json.toDouble negative (Json.natOf (bare ++ places)) (e - places.length))

/-- A number. -/
def numberOf? (cs : List Char) : Option Node :=
  let (signed, negative, body) := match cs with
    | '+' :: rest => (true, false, rest)
    | '-' :: rest => (true, true, rest)
    | rest => (false, false, rest)
  let ofBase (base : Nat) (ds : List Char) : Option Node :=
    if signed then none else (digitsOf? base ds).bind (wholeOf? false)
  match body with
  | ['i', 'n', 'f'] => some (.double (Json.toDouble negative 1 400))
  | ['n', 'a', 'n'] => some (.double (0.0 / 0.0))
  | '0' :: 'x' :: ds => ofBase 16 ds
  | '0' :: 'o' :: ds => ofBase 8 ds
  | '0' :: 'b' :: ds => ofBase 2 ds
  | _ =>
    match digitsOf? 10 body with
    | some n => if leadsWithZero (body.filter (· ≠ '_')) then none else wholeOf? negative n
    | none => doubleOf? negative body

/-- The characters a number, a date or a time is made of. -/
def isAtomChar (c : Char) : Bool :=
  c.isAlpha || c.isDigit || c = '_' || c = '-' || c = '+' || c = '.' || c = ':'

/-- Is it a time of day? -/
def isClock (cs : List Char) : Bool :=
  let read := do
    let (h, cs) ← Instant.digits? 2 cs
    let cs ← Instant.mark? ':' cs
    let (m, cs) ← Instant.digits? 2 cs
    let cs ← Instant.mark? ':' cs
    let (s, cs) ← Instant.digits? 2 cs
    let (_, cs) ← Instant.fraction? cs
    if h < 24 && m < 60 && s < 61 then some cs else none
  match read with
  | some [] => true
  | some rest => (Instant.offset? (rest.map Char.toUpper)).any fun r => r.2.isEmpty
  | none => false

/-- The date at the start of some characters, and the rest. -/
def date? (cs : List Char) : Option (List Char) := do
  let (y, cs) ← Instant.digits? 4 cs
  let cs ← Instant.mark? '-' cs
  let (m, cs) ← Instant.digits? 2 cs
  let cs ← Instant.mark? '-' cs
  let (d, cs) ← Instant.digits? 2 cs
  if (Date.mk y m d).isValid then some cs else none

/-- A date, a time, or both. -/
def momentOf? (cs : List Char) : Option Node :=
  match date? cs with
  | some [] => some (.moment (String.ofList cs))
  | some (c :: rest) =>
    if (c = 'T' || c = 't' || c = ' ') && isClock rest then some (.moment (String.ofList cs))
    else none
  | none => if isClock cs then some (.moment (String.ofList cs)) else none

/-- A truth value, a number, a date or a time. -/
def atom? (cs : List Char) : Option (Node × List Char) :=
  let word := cs.takeWhile isAtomChar
  let rest := cs.drop word.length
  -- A blank may stand between date and time.
  let (word, rest) := match date? word, rest with
    | some [], ' ' :: more =>
      let clock := more.takeWhile isAtomChar
      if isClock clock then (word ++ ' ' :: clock, more.drop clock.length) else (word, rest)
    | _, _ => (word, rest)
  let node : Option Node := match String.ofList word with
    | "true" => some (.truth true)
    | "false" => some (.truth false)
    | _ => numberOf? word <|> momentOf? word
  node.map fun n => (n, rest)

/-- Adds a value under a path to fields that were set one by one on one line. -/
def insertInline : Nat → List String → Node → List (String × Node) → Option (List (String × Node))
  | 0, _, _, _ => none
  | _ + 1, [], _, _ => none
  | fuel + 1, k :: path, v, fields =>
    let found := fields.find? fun f => f.1 = k
    if path.isEmpty then if found.isSome then none else some (fields ++ [(k, v)])
    else
      match found with
      | none => (insertInline fuel path v []).map fun inner => fields ++ [(k, .table false inner)]
      | some (_, .table false inner) =>
        (insertInline fuel path v inner).map fun inner =>
          fields.map fun f => if f.1 = k then (k, .table false inner) else f
      | some _ => none

mutual

/-- Reads a value. -/
def node? : Nat → List Char → Option (Node × List Char)
  | 0, _ => none
  | fuel + 1, cs =>
    match skipBlanks cs with
    | [] => none
    | '"' :: '"' :: '"' :: rest =>
      (multiline? '"' true (rest.length + 1) (dropNewline rest) []).map fun (s, r) => (.text s, r)
    | '"' :: rest => (basic? (rest.length + 1) rest []).map fun (s, r) => (.text s, r)
    | '[' :: rest => (elements? fuel rest).map fun (vs, r) => (.array vs, r)
    | c :: rest =>
      if c = tick then
        if [tick, tick].isPrefixOf rest then
          (multiline? tick false (rest.length + 1) (dropNewline (rest.drop 2)) []).map
            fun (s, r) => (.text s, r)
        else (literal? rest []).map fun (s, r) => (.text s, r)
      else if c = '\x7b' then
        match skipBlanks rest with
        | '\x7d' :: after => some (.table true [], after)
        | _ => (pairs? fuel rest []).map fun (fs, r) => (.table true fs, r)
      else atom? (c :: rest)

/-- Reads the items of an array up to its closing bracket. -/
def elements? : Nat → List Char → Option (List Node × List Char)
  | 0, _ => none
  | fuel + 1, cs => do
    match ← skipLines? cs.length cs with
    | ']' :: after => return ([], after)
    | rest =>
      let (v, rest) ← node? fuel rest
      match ← skipLines? rest.length rest with
      | ',' :: more =>
        let (vs, after) ← elements? fuel more
        return (v :: vs, after)
      | ']' :: after => return ([v], after)
      | _ => none

/-- Reads the fields of a table written on a line. -/
def pairs? : Nat → List Char → List (String × Node) → Option (List (String × Node) × List Char)
  | 0, _, _ => none
  | fuel + 1, cs, done => do
    let (path, rest) ← key? (cs.length + 1) cs
    match rest with
    | '=' :: rest =>
      let (v, rest) ← node? fuel rest
      let done ← insertInline (path.length + 1) path v done
      match skipBlanks rest with
      | ',' :: more => pairs? fuel more done
      | '\x7d' :: after => return (done, after)
      | _ => none
    | _ => none

end

/-- Reads one statement and its line end. -/
def statement? (cs : List Char) : Option (Statement × List Char) :=
  match cs with
  | '[' :: '[' :: rest => do
    let (path, rest) ← key? (rest.length + 1) rest
    match rest with
    | ']' :: ']' :: rest => return (.element path, ← endLine? rest)
    | _ => none
  | '[' :: rest => do
    let (path, rest) ← key? (rest.length + 1) rest
    match rest with
    | ']' :: rest => return (.table path, ← endLine? rest)
    | _ => none
  | _ => do
    let (path, rest) ← key? (cs.length + 1) cs
    match rest with
    | '=' :: rest =>
      let (v, rest) ← node? (2 * rest.length + 2) rest
      return (.assign path v, ← endLine? rest)
    | _ => none

/-- Reads all statements; `fuel` bounds their number. -/
def statements? : Nat → List Char → Option (List Statement)
  | 0, _ => none
  | fuel + 1, cs => do
    match ← skipLines? cs.length cs with
    | [] => return []
    | rest =>
      let (s, rest) ← statement? rest
      return s :: (← statements? fuel rest)

/-- What a table is known as, so that it is not set twice. -/
inductive Origin where
  /-- Named on the way to another table. -/
  | implied
  /-- Opened by a heading. -/
  | heading
  /-- Made by the dots of a key. -/
  | dotted
deriving DecidableEq, Inhabited

/-- The document so far: how the tables that are known came about, by their paths.
A path goes through an array of tables by its last element, whose number is part of
the path. -/
structure Builder where
  root : List (String × Node) := []
  origins : List (List String × Origin) := []
  /-- The table that assignments go to. -/
  current : List String := []
  /-- The same table with the numbers of the elements on its path. -/
  place : List String := []
deriving Inhabited

/-- How a table came about. -/
def Builder.origin? (b : Builder) (place : List String) : Option Origin :=
  (b.origins.find? fun o => o.1 = place).map Prod.snd

/-- The entry of a name. -/
def lookup? (fields : List (String × Node)) (k : String) : Option Node :=
  (fields.find? fun f => f.1 = k).map Prod.snd

/-- Replaces the entry of a name, or adds it at the end. -/
def replace (fields : List (String × Node)) (k : String) (v : Node) : List (String × Node) :=
  if fields.any fun f => f.1 = k then fields.map fun f => if f.1 = k then (k, v) else f
  else fields ++ [(k, v)]

/-- Changes the fields of the table at a path, made if it is not there. The last
element of an array of tables counts. -/
def modifyAt (f : List (String × Node) → Option (List (String × Node))) :
    List String → List (String × Node) → Option (List (String × Node))
  | [], fields => f fields
  | k :: path, fields =>
    match lookup? fields k with
    | none => (modifyAt f path []).map fun inner => fields ++ [(k, .table false inner)]
    | some (.table false inner) =>
      (modifyAt f path inner).map fun inner => replace fields k (.table false inner)
    | some (.tables items) =>
      match items.reverse with
      | last :: before =>
        (modifyAt f path last).map fun inner =>
          replace fields k (.tables ((inner :: before).reverse))
      | [] => none
    | some _ => none

/-- The path with the numbers of the elements it goes through. -/
def placeOf : List (String × Node) → List String → List String
  | _, [] => []
  | fields, k :: path =>
    match lookup? fields k with
    | some (.table _ inner) => k :: placeOf inner path
    | some (.tables items) =>
      k :: toString items.length :: placeOf ((items.getLast?).getD []) path
    | _ => k :: path

/-- The nonempty beginnings of a list that are not all of it. -/
def beginnings (xs : List String) : List (List String) :=
  (List.range (xs.length - 1)).map fun n => xs.take (n + 1)

/-- Notes how tables came about. -/
def Builder.note (b : Builder) (places : List (List String)) (o : Origin) : Builder :=
  let fresh := places.filter fun p => (b.origin? p).isNone
  { b with origins := b.origins ++ fresh.map fun p => (p, o) }

/-- Opens a table. -/
def Builder.openTable? (b : Builder) (path : List String) : Option Builder := do
  let place := placeOf b.root path
  match b.origin? place with
  | some .heading => none
  | some .dotted => none
  | _ =>
    -- An array of tables cannot be opened as a table.
    let parent := path.dropLast
    let last := (path.getLast?).getD ""
    let root ← modifyAt (fun fields =>
      match lookup? fields last with
      | some (.tables _) => none
      | _ => some fields) parent b.root
    let root ← modifyAt some path root
    let place := placeOf root path
    let b : Builder := { b with
      root := root
      origins := (b.origins.filter fun o => o.1 ≠ place) ++ [(place, .heading)]
      current := path
      place := place }
    return b.note ((beginnings path).map (placeOf root)) .implied

/-- Opens a new element of an array of tables. -/
def Builder.openElement? (b : Builder) (path : List String) : Option Builder := do
  let parent := path.dropLast
  let last := (path.getLast?).getD ""
  let root ← modifyAt (fun fields =>
    match lookup? fields last with
    | none => some (fields ++ [(last, .tables [[]])])
    | some (.tables items) => some (replace fields last (.tables (items ++ [[]])))
    | some _ => none) parent b.root
  let b := { b with root := root, current := path, place := placeOf root path }
  return b.note ((beginnings path).map (placeOf root)) .implied

/-- Sets a value under a key with dots. Tables on the way must be made by such keys
of the same table. -/
def Builder.assign? (b : Builder) (path : List String) (v : Node) : Option Builder := do
  let full := b.current ++ path
  let steps := (beginnings path).map fun p => placeOf b.root (b.current ++ p)
  if steps.any fun p =>
      match b.origin? p with
      | some .heading => true
      | some .implied => true
      | _ => false then none
  let last := (path.getLast?).getD ""
  let root ← modifyAt (fun fields =>
    if (lookup? fields last).isSome then none else some (fields ++ [(last, v)]))
    full.dropLast b.root
  return { b with root := root }.note ((beginnings path).map fun p => placeOf root (b.current ++ p))
    .dotted

/-- Takes one statement into a document. -/
def Builder.step? (b : Builder) : Statement → Option Builder
  | .assign path v => b.assign? path v
  | .table path => b.openTable? path
  | .element path => b.openElement? path

/-- Reads a document. -/
def parse? (s : String) : Option (List (String × Node)) := do
  let stmts ← statements? (s.length + 2) s.toList
  let b ← stmts.foldlM Builder.step? {}
  return b.root

end Toml
end Moniker
