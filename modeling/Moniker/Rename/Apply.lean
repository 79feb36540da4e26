/-
# Renaming across files

Source: `rename.Applier.Resolve`, `Applier.Run`, `Applier.Apply`, `Result.Rejected`.

Directives are looked up one by one; those without occurrences are dropped and
reported.  The remaining renames are applied file by file in the order of the
paths: a file gets all its edits or none, and a refused file does not hold up the
others.
-/

import Moniker.Rename.Edit

namespace Moniker

/-- What became of a file with edits. -/
inductive FileOutcome where
  | missing (path : String)
  | rejected (d : Diagnostic)
  | applied (r : FileResult)
deriving Inhabited

/-- A directive that was dropped, with the failure of the look-up if there was
one. -/
structure Dropped where
  directive : Directive
  failure : Option Failure
deriving Inhabited

namespace Dropped

/-- The report of a dropped directive. -/
def diagnostic (d : Dropped) : Diagnostic :=
  { code := .unresolvedSymbol
    message := "no rename locations for " ++ d.directive.oldName
    place := some ⟨d.directive.file, d.directive.pos⟩
    cause := d.failure.map Failure.text }

end Dropped

/-- The outcome of renaming. -/
structure RenameResult where
  dropped : List Dropped := []
  outcomes : List FileOutcome := []
deriving Inhabited

namespace RenameResult

/-- The rewritten files in the order of their paths. -/
def files (r : RenameResult) : List FileResult :=
  r.outcomes.filterMap fun
    | .applied f => some f
    | _ => none

/-- The report of an outcome that is no success. -/
def outcomeDiagnostic? : FileOutcome → Option Diagnostic
  | .missing path =>
    some { code := .fileNotFound, message := "no source for " ++ path, place := some ⟨path, 0⟩ }
  | .rejected d => some d
  | .applied _ => none

/-- All reports: dropped directives, then files. -/
def diagnostics (r : RenameResult) : List Diagnostic :=
  r.dropped.map Dropped.diagnostic ++ r.outcomes.filterMap outcomeDiagnostic?

/-- Had the file edits that were refused because they overlap? -/
def isRejected (r : RenameResult) (file : String) : Bool :=
  r.diagnostics.any fun d =>
    d.code == .overlappingEdit && (d.place.map Place.file) == some file

end RenameResult

namespace Rename

/-- The edits of all renames that change a name, each with its file. -/
def editsOf (items : List RenameItem) : List (String × Edit) :=
  (items.filter fun i => i.target != i.oldName).flatMap fun i =>
    i.locations.map fun l => (l.file, Edit.ofLocation i l)

/-- Applies the edits of one file. -/
def applyFile (sources : String → Option ByteArray) (edits : List (String × Edit))
    (path : String) : FileOutcome :=
  match sources path with
  | none => .missing path
  | some content =>
    match Edit.normalize path content ((edits.filter fun e => e.1 == path).map Prod.snd) with
    | .error d => .rejected d
    | .ok checked => .applied (FileResult.ofEdits path content checked)

/-- Applies renames to the files they touch. -/
def apply (sources : String → Option ByteArray) (items : List RenameItem) : RenameResult :=
  let edits := editsOf items
  let paths := Text.sort (edits.map Prod.fst).eraseDups
  { outcomes := paths.map (applyFile sources edits) }

/-- Looks one directive up. -/
def resolveOne (locate : Locator) (d : Directive) : Except Dropped RenameItem :=
  match locate d.file d.pos with
  | .error e => .error ⟨d, some e⟩
  | .ok [] => .error ⟨d, none⟩
  | .ok locations => .ok { oldName := d.oldName, target := d.target, locations := locations }

/-- The renames that directives ask for, and the directives dropped. -/
def resolve (locate : Locator) (directives : List Directive) : List RenameItem × List Dropped :=
  let results := directives.map (resolveOne locate)
  (results.filterMap Except.toOption, results.filterMap fun
    | .error d => some d
    | .ok _ => none)

/-- Looks directives up and applies them. -/
def run (sources : String → Option ByteArray) (locate : Locator) (directives : List Directive) :
    RenameResult :=
  let (items, dropped) := resolve locate directives
  { apply sources items with dropped := dropped }

end Rename
end Moniker
