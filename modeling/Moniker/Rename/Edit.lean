/-
# Edits of one file

Source: `rename.normalize`, `mergeShorthand`, `overlap`, `splice`, `FileResult.Summary`.

An `Edit` writes a text over a byte range.  Edits of a file are first put in order
and checked (`normalize`):

* every range lies in the file and spells the name it is supposed to spell,
* the same text on the same range counts once,
* the key and the value of a shorthand property renamed together become
  `key: value`,
* anything else that overlaps is refused.

Then they are written from the last to the first (`splice`), so that no range
shifts before it is used.
-/

import Moniker.Rename.Location
import Moniker.Text.Quoted

namespace Moniker

/-- Writes `text` over the bytes from `start` to `stop`. -/
structure Edit where
  start : Int
  stop : Int
  text : String
  kind : LocationKind := .plain
  /-- The new name alone. -/
  target : String := ""
  /-- What the range must spell, unless empty. -/
  oldName : String := ""
deriving DecidableEq, Inhabited

namespace Edit

/-- The edit that puts a new name at a location. -/
def ofLocation (item : RenameItem) (l : Location) : Edit :=
  { start := l.start, stop := l.stop, text := l.replacement item.target, kind := l.kind,
    target := item.target, oldName := item.oldName }

/-- Ordered by where they begin, then by where they end. -/
def le (a b : Edit) : Bool := a.start < b.start || (a.start == b.start && a.stop ≤ b.stop)

/-- Does the range lie in a file of this many bytes? -/
def inBounds (e : Edit) (size : Nat) : Bool :=
  0 ≤ e.start && e.stop ≤ size && e.start ≤ e.stop

/-- The bytes an edit replaces. -/
def replaced (content : ByteArray) (e : Edit) : ByteArray :=
  Text.slice content e.start.toNat e.stop.toNat

/-- Does the range spell something else than it is supposed to? -/
def isStale (content : ByteArray) (e : Edit) : Bool :=
  e.oldName != "" && e.kind != .stringKey && e.replaced content != Text.encode e.oldName

/-- The two sides of a shorthand property renamed together. -/
def mergeShorthand? (a b : Edit) : Option Edit :=
  let joined (key value : Edit) : Edit :=
    { start := key.start, stop := key.stop, text := key.target ++ ": " ++ value.target }
  match a.kind, b.kind with
  | .shorthandValue, .shorthandKey => some (joined b a)
  | .shorthandKey, .shorthandValue => some (joined a b)
  | _, _ => none

/-- A range as it is shown. -/
def span (e : Edit) : String := toString e.start ++ "-" ++ toString e.stop

/-- The refusal of two edits that overlap. -/
def overlap (file : String) (a b : Edit) : Diagnostic :=
  { code := .overlappingEdit
    message := "edits " ++ a.span ++ " (" ++ Text.quote a.text ++ ") and " ++ b.span ++ " ("
      ++ Text.quote b.text ++ ") overlap"
    place := some ⟨file, b.start⟩
    details := some (.record
      [("first", .list [.int a.start, .int a.stop]),
        ("second", .list [.int b.start, .int b.stop])]) }

/-- The refusal of a range that is not in the file. -/
def outside (file : String) (e : Edit) : Diagnostic :=
  { code := .internalError, message := "edit " ++ e.span ++ " outside file bounds"
    place := some ⟨file, e.start⟩ }

/-- The refusal of a range that spells something else. -/
def stale (file : String) (content : ByteArray) (e : Edit) : Diagnostic :=
  { code := .internalError
    message := "stale location: expected " ++ Text.quote e.oldName ++ ", found "
      ++ Text.quoteBytes (e.replaced content)
    place := some ⟨file, e.start⟩ }

/-- Joins an edit to the one before it, if they are on the same range: the edit
that takes the place of both. -/
def join? (prev e : Edit) : Option Edit :=
  if e.start = prev.start ∧ e.stop = prev.stop then
    if e.text = prev.text then some prev else mergeShorthand? prev e
  else none

/-- Takes one more edit, in order, into the checked ones, which are kept in
reverse. -/
def accept (file : String) (content : ByteArray) (done : List Edit) (e : Edit) :
    Except Diagnostic (List Edit) :=
  if !e.inBounds content.size then .error (outside file e)
  else if e.isStale content then .error (stale file content e)
  else
    match done with
    | [] => .ok [e]
    | prev :: rest =>
      match join? prev e with
      | some joined => .ok (joined :: rest)
      | none =>
        if (e.start = prev.start ∧ e.stop = prev.stop) ∨ e.start < prev.stop then
          .error (overlap file prev e)
        else .ok (e :: done)

/-- Puts the edits of a file in order and checks them. -/
def normalize (file : String) (content : ByteArray) (edits : List Edit) :
    Except Diagnostic (List Edit) :=
  ((edits.mergeSort le).foldlM (accept file content) []).map List.reverse

/-- Writes one edit. -/
def apply (e : Edit) (content : ByteArray) : ByteArray :=
  Text.slice content 0 e.start.toNat ++ Text.encode e.text
  ++ Text.slice content e.stop.toNat content.size

/-- Writes edits in order, the last one first. -/
def splice (content : ByteArray) (edits : List Edit) : ByteArray := edits.foldr apply content

/-- How much longer an edit makes the file. -/
def growth (e : Edit) : Int := (e.text.utf8ByteSize : Int) - (e.stop - e.start)

end Edit

/-- The new content of a file. -/
structure FileResult where
  path : String
  content : ByteArray
  /-- The rewritten region of the new content. -/
  changedStart : Int := 0
  changedEnd : Int := 0
  edits : Nat := 0
deriving Inhabited

namespace FileResult

/-- Writes checked edits to a file. -/
def ofEdits (path : String) (content : ByteArray) (edits : List Edit) : FileResult :=
  match edits.head?, edits.getLast? with
  | some first, some last =>
    let stop := last.stop + (edits.map Edit.growth).foldl (· + ·) 0
    { path := path, content := Edit.splice content edits, changedStart := first.start,
      changedEnd := max stop first.start, edits := edits.length }
  | _, _ => { path := path, content := content }

/-- A result in one line. -/
def summary (r : FileResult) : String :=
  if r.edits == 1 then r.path ++ ": 1 edit" else r.path ++ ": " ++ toString r.edits ++ " edits"

end FileResult
end Moniker
