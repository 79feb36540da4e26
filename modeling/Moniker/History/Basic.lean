/-
# The history of a project

Source: `storage.RunRepository.Record`, `Get`, `List`, `FindRenames`, `Prune`,
`createHistoryTables`.

Every run that renames or bundles is recorded: when it started, how it went, the
names it changed and the declarations it copied.

The history has three tables.  A row of the second or third belongs to a run of
the first and carries its number within that run.

| table | row |
| --- | --- |
| runs | one run, under an id that no other run has |
| renames | one changed name of a run |
| hoisted | one copied declaration of a run |

Instants are kept in universal time and durations in whole milliseconds.
-/

import Moniker.Data.Instant
import Moniker.Data.Value

namespace Moniker

/-- A name that a run changed. -/
structure ChangedName where
  file : String := ""
  pos : Int := 0
  oldName : String := ""
  target : String := ""
  domain : String := ""
deriving DecidableEq, Inhabited

/-- A declaration that a run copied. -/
structure CopiedDeclaration where
  name : String := ""
  localName : String := ""
  origin : String := ""
  shape : String := ""
deriving DecidableEq, Inhabited

/-- What is recorded of a run itself. -/
structure RunHeader where
  id : String := ""
  kind : String := ""
  root : String := ""
  target : String := ""
  status : String := ""
  startedAt : Instant := .zero
  duration : Span := ⟨0⟩
  files : Int := 0
  changed : Int := 0
  diagnostics : Int := 0
  dryRun : Bool := false
deriving DecidableEq, Inhabited

/-- A run with its details. -/
structure Run extends RunHeader where
  renames : List ChangedName := []
  hoisted : List CopiedDeclaration := []
deriving DecidableEq, Inhabited

/-- The kinds of runs. -/
def RunHeader.kinds : List String := ["mangle", "rename", "bundle"]

/-- The ways a run can end. -/
def RunHeader.statuses : List String := ["ok", "partial", "failed"]

/-- The status of a run with a number of diagnostics. -/
def RunHeader.statusFor (diagnostics : Nat) : String := if diagnostics > 0 then "partial" else "ok"

/-- A header as it is kept. -/
def RunHeader.stored (h : RunHeader) : RunHeader :=
  { h with startedAt := h.startedAt.utc, duration := ⟨h.duration.millis * 1000000⟩ }

/-- A row that belongs to a run. -/
structure HistoryRow (α : Type) where
  run : String
  seq : Nat
  item : α
deriving DecidableEq, Inhabited

/-- The rows of a run's details. -/
def HistoryRow.number {α : Type} (run : String) (items : List α) : List (HistoryRow α) :=
  items.zipIdx.map fun (item, seq) => ⟨run, seq, item⟩

/-- The recorded runs, in the order in which they were recorded. -/
structure History where
  runs : List RunHeader := []
  renames : List (HistoryRow ChangedName) := []
  hoisted : List (HistoryRow CopiedDeclaration) := []
deriving DecidableEq, Inhabited

/-- Why the history does not do what it is asked to. -/
inductive HistoryError where
  /-- A run with a known id, an unknown kind or an unknown status. -/
  | refused
  | ambiguous (start : String)
deriving DecidableEq, Inhabited

namespace History

/-- Can a run be recorded? -/
def accepts (h : History) (r : Run) : Bool :=
  !(h.runs.any fun x => x.id == r.id) && RunHeader.kinds.contains r.kind
  && RunHeader.statuses.contains r.status

/-- Records a run with its details. -/
def record (h : History) (r : Run) : Except HistoryError History :=
  if h.accepts r then
    .ok { runs := h.runs ++ [r.toRunHeader.stored]
          renames := h.renames ++ HistoryRow.number r.id r.renames
          hoisted := h.hoisted ++ HistoryRow.number r.id r.hoisted }
  else .error .refused

/-- Did `a` start at the same time as `b` or after it? -/
def notBefore (a b : RunHeader) : Bool := b.startedAt.le a.startedAt

/-- All runs, newest first; of two that started together, the one recorded later. -/
def newest (h : History) : List RunHeader := h.runs.reverse.mergeSort notBefore

/-- The runs of a kind, newest first; of two that started together, the one
recorded earlier. -/
def newestOf (h : History) (kind : String) : List RunHeader :=
  (h.runs.filter fun r => r.kind == kind).mergeSort notBefore

/-- How many runs are listed where no number is asked for. -/
def usualLimit : Nat := 20

/-- The newest runs, of a kind if one is given. -/
def list (h : History) (kind : String) (limit : Int) : List RunHeader :=
  let n := if limit ≤ 0 then usualLimit else limit.toNat
  (if kind = "" then h.newest else h.newestOf kind).take n

/-- Keeps the newest runs; a negative number keeps all. -/
def prune (h : History) (keep : Int) : History :=
  let kept := if keep < 0 then h.runs else h.newest.take keep.toNat
  let isKept (id : String) : Bool := kept.any fun r => r.id == id
  { runs := h.runs.filter fun r => isKept r.id
    renames := h.renames.filter fun row => isKept row.run
    hoisted := h.hoisted.filter fun row => isKept row.run }

/-- The details of a run, in the order of their numbers. -/
def detailsOf {α : Type} (rows : List (HistoryRow α)) (id : String) : List α :=
  ((rows.filter fun row => row.run == id).mergeSort fun a b => a.seq ≤ b.seq).map HistoryRow.item

/-- A run with its details. -/
def complete (h : History) (r : RunHeader) : Run :=
  { toRunHeader := r, renames := detailsOf h.renames r.id, hoisted := detailsOf h.hoisted r.id }

/-- Does an id begin with a text? As many characters are compared as the text has
bytes. -/
def beginsWith (id start : String) : Bool := id.toList.take start.utf8ByteSize == start.toList

/-- Which of two runs an id rather means: the one with just this id, or else the newer. -/
def nearer (id : String) (a b : RunHeader) : Bool :=
  if (a.id == id) = (b.id == id) then notBefore a b else a.id == id

/-- The two runs that an id means above all others whose ids begin so. -/
def matching (h : History) (id : String) : List RunHeader :=
  ((h.runs.filter fun r => beginsWith r.id id).mergeSort (nearer id)).take 2

/-- The run of an id, or the only one whose id begins so. -/
def get (h : History) (id : String) : Except HistoryError (Option Run) :=
  match h.matching id with
  | [] => .ok none
  | [r] => .ok (some (h.complete r))
  | r :: _ => if r.id = id then .ok (some (h.complete r)) else .error (.ambiguous id)

/-- When a run started. -/
def startOf? (h : History) (id : String) : Option Instant :=
  (h.runs.find? fun r => r.id == id).map RunHeader.startedAt

/-- The order in which changed names are listed: newest run first, then by number. -/
def rowOrder (a b : Instant × HistoryRow ChangedName) : Bool :=
  !a.1.le b.1 || (b.1.le a.1 && a.2.seq ≤ b.2.seq)

/-- What a name was changed to, newest run first. -/
def find (h : History) (oldName : String) : List ChangedName :=
  let rows := h.renames.filter fun row => row.item.oldName == oldName
  let dated := rows.filterMap fun row => (h.startOf? row.run).map fun t => (t, row)
  (dated.mergeSort rowOrder).map fun d => d.2.item

end History
end Moniker
