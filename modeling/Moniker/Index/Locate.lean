/-
# Occurrences by index

Source: `scip.Locator.FindRenameLocations`, `occurrenceAt`, `hits`, `locationOf`,
`lineIndex.span`.

Finds the occurrences of a symbol with an index instead of the program's own
binding.  The index says where the symbol stands; the syntax tree says how the
name is written there.

The symbol at a place is that of an occurrence around it, of a definition if there
is one.  A symbol that an export clause names without an alias keeps its name for
other files, so then only the occurrences in the file asked about count.
-/

import Moniker.Index.Basic
import Moniker.Index.SymbolName
import Moniker.Program.Basic
import Moniker.Rename.Location

namespace Moniker

/-- What a look-up leaves out. -/
inductive IndexEvent where
  | unloaded (path : String)
  | outside (path symbol : String)
deriving DecidableEq, Inhabited

/-- An occurrence with the bytes it covers. -/
structure Hit where
  path : String
  file : FileId
  occurrence : IndexOccurrence
  start : Nat
  stop : Nat
deriving DecidableEq, Inhabited

namespace Index

/-- The bytes a range covers. -/
def span? (lines : List Text.Line) (unit : Text.ColumnUnit) (range : List Int) :
    Option (Nat × Nat) :=
  let between (l c l' c' : Int) : Option (Nat × Nat) := do
    let start ← Text.offset? lines unit l c
    let stop ← Text.offset? lines unit l' c'
    if stop < start then none else some (start, stop)
  match range with
  | [l, c, c'] => between l c l c'
  | [l, c, l', c'] => between l c l' c'
  | _ => none

/-- The occurrences of a document for which `keep` holds, and those of them that
lie outside its text. -/
def hits (p : Program) (d : IndexDocument) (f : FileId) (keep : IndexOccurrence → Bool) :
    List Hit × List IndexEvent :=
  let lines := Text.lines (p.source.file f).contents
  let found := (d.occurrences.filter keep).map fun o => (o, span? lines d.unit o.range)
  (found.filterMap fun (o, span) => span.map fun (start, stop) => ⟨d.path, f, o, start, stop⟩,
    found.filterMap fun (o, span) => if span.isNone then some (.outside d.path o.symbol) else none)

/-- The occurrence around a place, the first one unless a later one is the first
definition. -/
def around? (pos : Int) (hits : List Hit) : Option Hit :=
  let covering := hits.filter fun h => (h.start : Int) ≤ pos && pos < h.stop
  (covering.find? fun h => h.occurrence.isDefinition) <|> covering.head?

/-- What must be written at an occurrence, `none` if it covers nothing. -/
def locationOf? (p : Program) (h : Hit) : Option Location :=
  let plain : Location := { file := h.path, start := h.start, stop := h.stop }
  if h.start = h.stop then none
  else
    let src := p.source
    let file := src.file h.file
    match src.nodeAt? file.root h.start with
    | none => some plain
    | some n =>
      let n := if src.kind n == "string_fragment" then (src.parent n).getD n else n
      let size := h.stop - h.start
      let text := Text.decode (Text.slice file.contents h.start h.stop)
      let asKey := { plain with kind := LocationKind.shorthandKey, after := ": " ++ text }
      let asValue := { plain with kind := LocationKind.shorthandValue, before := text ++ ": " }
      some <| match src.kind n with
        | "shorthand_property_identifier" => if h.occurrence.isDefinition then asKey else asValue
        | "shorthand_property_identifier_pattern" =>
          if h.occurrence.isDefinition then asValue else asKey
        | "string" =>
          if src.start n = h.start ∧ src.stop n = h.stop ∧ 2 ≤ size then
            { plain with kind := .stringKey, start := h.start + 1, stop := h.stop - 1 }
          else { plain with kind := .stringKey }
        | "private_property_identifier" => { plain with kind := .privateName }
        | _ =>
          let isBareExport := (src.parent n).any fun parent =>
            src.kind parent == "export_specifier" && src.field n == "name"
              && (src.child? parent "alias").isNone
          if isBareExport then { plain with kind := .exportSpecifier, after := " as " ++ text }
          else plain

/-- Of occurrences on the same bytes of a file, the first. -/
def distinct (hits : List Hit) : List Hit :=
  hits.foldl (fun acc h =>
    if acc.any fun a => a.path == h.path && a.start == h.start && a.stop == h.stop then acc
    else acc ++ [h]) []

/-- Ordered by path, then by offset. -/
def locationLe (a b : Location) : Bool :=
  if a.file != b.file then Text.lexLe a.file b.file else a.start ≤ b.start

/-- All occurrences of a symbol in some documents. -/
def gather (p : Program) (docs : List IndexDocument) (symbol : String) :
    List Hit × List IndexEvent :=
  let parts := docs.map fun d =>
    match p.fileAt? d.path with
    | none => ([], [IndexEvent.unloaded d.path])
    | some f => hits p d f fun o => symbol == "" || o.symbol == symbol
  (parts.flatMap Prod.fst, parts.flatMap Prod.snd)

/-- The places of an occurrence's symbol, as seen from a document. -/
def placesOf (p : Program) (i : Index) (doc : IndexDocument) (symbol : String) :
    List Location × List IndexEvent :=
  let docs := if SymbolName.namesLocal symbol then [doc] else i.documents
  let (found, events) := gather p docs symbol
  let all := (distinct found).filterMap (locationOf? p)
  let kept :=
    if all.any fun l => l.kind == .exportSpecifier then all.filter fun l => l.file == doc.path
    else all
  (kept.mergeSort locationLe, events)

/-- Looks up the symbol at a place, and tells what was left out on the way. -/
def lookup (i : Index) (p : Program) (file : String) (pos : Int) :
    Except Failure (List Location) × List IndexEvent :=
  let fail (code : Code) (message : String) : Except Failure (List Location) :=
    .error (.coded { code := code, message := message, place := some ⟨file, pos⟩ })
  match i.document? file with
  | none => (fail .indexMissing (file ++ " is not in the SCIP index"), [])
  | some doc =>
    match p.fileAt? doc.path with
    | none => (fail .fileNotFound ("file " ++ file ++ " is not loaded"), [])
    | some f =>
      let (all, skipped) := hits p doc f fun _ => true
      match around? pos all with
      | none =>
        (fail .unresolvedSymbol ("no indexed symbol at offset " ++ toString pos), skipped)
      | some h =>
        let (places, events) := placesOf p i doc h.occurrence.symbol
        (.ok places, skipped ++ events)

/-- The index as a way to find occurrences. -/
def locate (i : Index) (p : Program) : Locator := fun file pos => (i.lookup p file pos).1

end Index
end Moniker
