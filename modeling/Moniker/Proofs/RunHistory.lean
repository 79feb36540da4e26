/-
# The tables of the history stay in step

A history has been recorded by a `journal` (`Holds`): its runs are the headers of the
journal and its details their numbered details, run by run.  Recording a run appends to
the journal, pruning takes runs out of it, and both keep this (`Holds.record`,
`Holds.restrict`).  So after any steps the three tables belong together, and each run of
the journal is one that a step has recorded and no later step has removed (`Recorded`).

The tables themselves know keys, checks and references:

| table | a row needs |
| --- | --- |
| runs | a free id, a known kind and a known status |
| renames, hoisted | a run of its id, and a number that is free in it |

A run is recorded row by row (`History.enter`), and every row is checked.  Only the first
can be refused, so nothing has been added yet when recording fails (`Holds.enter_eq`).  Runs
are deleted with the rows that refer to them (`History.deleteRuns`), which is what pruning
does (`Holds.deleteRuns_eq`).

A run is looked up among those whose ids begin with what is asked for; the one with
just that id, if there is one, is in front of the others (`exists_matching`).
-/

import Moniker.History.Basic
import Moniker.Proofs.Timestamps
import Mathlib.Data.List.Induction
import Mathlib.Data.List.Nodup

namespace Moniker

/-! ### Numbered details -/

namespace HistoryRow

variable {α : Type} {run : String} {items : List α} {row : HistoryRow α}

theorem run_of_mem_number (h : row ∈ number run items) : row.run = run := by
  obtain ⟨_, _, rfl⟩ := List.mem_map.mp h
  rfl

theorem map_item_number (run : String) (items : List α) : (number run items).map item = items := by
  rw [number, List.map_map]
  exact List.zipIdx_map_fst 0 items

/-- The numbers of details count up. -/
theorem pairwise_number (run : String) (items : List α) :
    (number run items).Pairwise fun a b => a.seq < b.seq := by
  have hseq : (number run items).map seq = List.range' 0 items.length := by
    rw [number, List.map_map]
    exact List.zipIdx_map_snd 0 items
  rw [← List.pairwise_map (f := seq) (R := (· < ·)), hseq]
  exact List.pairwise_lt_range' 1

end HistoryRow

/-- The numbered details of runs, run by run. -/
def Run.rows {α : Type} (details : Run → List α) (journal : List Run) : List (HistoryRow α) :=
  journal.flatMap fun r => HistoryRow.number r.id (details r)

namespace Run

variable {α : Type} {details : Run → List α} {journal : List Run} {r : Run}

/-- Of some runs, the rows are those of these runs. -/
theorem filter_rows (p : String → Bool) (details : Run → List α) (journal : List Run) :
    ((rows details journal).filter fun row => p row.run) =
      rows details (journal.filter fun r => p r.id) := by
  induction journal with
  | nil => rfl
  | cons r journal ih =>
    rw [rows, List.flatMap_cons, List.filter_append, ← rows, ih, List.filter_cons]
    split
    · next hp =>
      rw [List.filter_eq_self.mpr, rows, rows, List.flatMap_cons]
      intro row hrow
      rwa [HistoryRow.run_of_mem_number hrow]
    · next hp =>
      rw [List.filter_eq_nil_iff.mpr, List.nil_append]
      intro row hrow
      rwa [HistoryRow.run_of_mem_number hrow]

theorem exists_of_mem_rows {row : HistoryRow α} (h : row ∈ rows details journal) :
    ∃ r ∈ journal, r.id = row.run := by
  obtain ⟨r, hr, hrow⟩ := List.mem_flatMap.mp h
  exact ⟨r, hr, (HistoryRow.run_of_mem_number hrow).symm⟩

/-- No other run has the id of a run. -/
theorem filter_id (hids : (journal.map (·.id)).Nodup) (hr : r ∈ journal) :
    (journal.filter fun x => x.id == r.id) = [r] := by
  obtain ⟨before, later, rfl⟩ := List.append_of_mem hr
  rw [List.map_append, List.map_cons, List.nodup_middle, List.nodup_cons, List.mem_append,
    not_or] at hids
  have hnone {xs : List Run} (h : r.id ∉ xs.map (·.id)) : (xs.filter fun x => x.id == r.id) = [] := by
    refine List.filter_eq_nil_iff.mpr fun x hx heq => h ?_
    exact List.mem_map.mpr ⟨x, hx, eq_of_beq heq⟩
  rw [List.filter_append, List.filter_cons, if_pos (beq_self_eq_true r.id), hnone hids.1.1,
    hnone hids.1.2, List.nil_append]

/-- The details of a run are found among all rows, in their order. -/
theorem detailsOf_rows (hids : (journal.map (·.id)).Nodup) (hr : r ∈ journal) :
    History.detailsOf (rows details journal) r.id = details r := by
  have hrows : ((rows details journal).filter fun row => row.run == r.id) =
      HistoryRow.number r.id (details r) := by
    rw [filter_rows (· == r.id), filter_id hids hr, rows, List.flatMap_singleton]
  have hsorted := (HistoryRow.pairwise_number r.id (details r)).imp fun h =>
    decide_eq_true (Nat.le_of_lt h)
  rw [History.detailsOf, hrows, List.mergeSort_of_pairwise hsorted, HistoryRow.map_item_number]

/-- A run as it is kept: the start in universal time, and whole milliseconds. -/
def kept (r : Run) : Run :=
  { r with
    startedAt := r.startedAt.utc
    duration := ⟨r.duration.nanos.tdiv 1000000 * 1000000⟩ }

end Run

/-! ### Histories and journals -/

namespace History

/-- The ids of the stored runs. -/
def ids (h : History) : List String := h.runs.map (·.id)

/-- The runs of some ids, with their details. -/
def restrict (h : History) (p : String → Bool) : History :=
  { runs := h.runs.filter fun r => p r.id
    renames := h.renames.filter fun row => p row.run
    hoisted := h.hoisted.filter fun row => p row.run }

/-- Does pruning keep the run of an id? -/
def keeps (h : History) (keep : Int) (id : String) : Bool :=
  (if keep < 0 then h.runs else h.newest.take keep.toNat).any fun r => r.id == id

theorem prune_eq (h : History) (keep : Int) : h.prune keep = h.restrict (h.keeps keep) := rfl

theorem keeps_natCast (h : History) (k : Nat) (id : String) :
    h.keeps k id = (h.newest.take k).any fun r => r.id == id := by
  rw [keeps, if_neg (Int.not_lt.mpr (Int.natCast_nonneg k)), Int.toNat_natCast]

theorem any_id_eq_true {runs : List RunHeader} {id : String} :
    (runs.any fun r => r.id == id) = true ↔ id ∈ runs.map (·.id) := by
  rw [List.any_eq_true, List.mem_map]
  simp only [beq_iff_eq]

theorem accepts_iff {h : History} {r : Run} : h.accepts r = true ↔
    r.id ∉ h.ids ∧ r.kind ∈ RunHeader.kinds ∧ r.status ∈ RunHeader.statuses := by
  rw [accepts, Bool.and_eq_true, Bool.and_eq_true, Bool.not_eq_true', ← Bool.not_eq_true,
    any_id_eq_true, List.contains_iff_mem, List.contains_iff_mem, and_assoc, ids]

/-! ### Orders of runs -/

theorem notBefore_trans (a b c : RunHeader) (hab : notBefore a b = true)
    (hbc : notBefore b c = true) : notBefore a c = true := by
  unfold notBefore at *
  rw [Instant.le_iff] at *
  omega

theorem notBefore_total (a b : RunHeader) : (notBefore a b || notBefore b a) = true := by
  unfold notBefore
  rw [Bool.or_eq_true, Instant.le_iff, Instant.le_iff]
  omega

theorem nearer_trans (id : String) (a b c : RunHeader) (hab : nearer id a b = true)
    (hbc : nearer id b c = true) : nearer id a c = true := by
  unfold nearer at *
  split at hab
  · next hsame =>
    rw [hsame]
    split at hbc
    · next hsame' => exact (if_pos hsame').trans (notBefore_trans a b c hab hbc)
    · next hdiff => exact (if_neg hdiff).trans hbc
  · next hdiff =>
    -- The first run has just this id, the second one has not.
    rw [hab] at hdiff ⊢
    split
    · next hsame =>
      split at hbc
      · next hsame' => exact absurd (hsame.trans hsame'.symm) hdiff
      · next hdiff' => exact absurd hbc.symm hdiff
    · rfl

theorem nearer_total (id : String) (a b : RunHeader) :
    (nearer id a b || nearer id b a) = true := by
  unfold nearer
  by_cases hsame : (a.id == id) = (b.id == id)
  · rw [if_pos hsame, if_pos hsame.symm]
    exact notBefore_total a b
  · rw [if_neg hsame, if_neg (Ne.symm hsame)]
    cases ha : a.id == id with
    | true => rfl
    | false => exact (Bool.not_eq_false _).mp fun hb => hsame (ha.trans hb.symm)

theorem length_le_utf8Len (cs : List Char) : cs.length ≤ String.utf8Len cs := by
  induction cs with
  | nil => exact Nat.le_refl _
  | cons c cs ih =>
    rw [List.length_cons, String.utf8Len_cons]
    exact Nat.add_le_add ih (Char.utf8Size_pos c)

/-- An id begins with itself. -/
theorem beginsWith_self (id : String) : beginsWith id id = true := by
  have hlength : id.toList.length ≤ id.utf8ByteSize := by
    have h := length_le_utf8Len id.toList
    rwa [← String.utf8ByteSize_ofList, String.ofList_toList] at h
  rw [beginsWith, List.take_of_length_le hlength]
  exact beq_self_eq_true _

/-- **A run with just the id comes first** among those that the id may mean. -/
theorem exists_matching {h : History} {r : RunHeader} (hr : r ∈ h.runs) :
    ∃ first rest, h.matching r.id = first :: rest ∧ first ∈ h.runs ∧ first.id = r.id := by
  obtain ⟨runs, hruns⟩ :
      ∃ runs, (h.runs.filter fun x => beginsWith x.id r.id).mergeSort (nearer r.id) = runs := ⟨_, rfl⟩
  have hmem (x : RunHeader) : x ∈ runs ↔ x ∈ h.runs ∧ beginsWith x.id r.id = true := by
    rw [← hruns, List.mem_mergeSort, List.mem_filter]
  have hsorted : runs.Pairwise fun a b => nearer r.id a b = true :=
    hruns ▸ List.pairwise_mergeSort (nearer_trans r.id) (nearer_total r.id) _
  have hr' : r ∈ runs := (hmem r).mpr ⟨hr, beginsWith_self r.id⟩
  rw [matching, hruns]
  cases runs with
  | nil => exact absurd hr' List.not_mem_nil
  | cons first rest =>
    refine ⟨first, rest.take 1, rfl, ((hmem first).mp List.mem_cons_self).1, ?_⟩
    rcases List.mem_cons.mp hr' with rfl | hrest
    · rfl
    · have hnearer := List.rel_of_pairwise_cons hsorted hrest
      unfold nearer at hnearer
      rw [beq_self_eq_true] at hnearer
      split at hnearer
      · next hsame => exact eq_of_beq hsame
      · exact eq_of_beq hnearer

/-- A history that some runs have been recorded in. -/
structure Holds (h : History) (journal : List Run) : Prop where
  runs : h.runs = journal.map fun r => r.toRunHeader.stored
  renames : h.renames = Run.rows Run.renames journal
  hoisted : h.hoisted = Run.rows Run.hoisted journal
  nodup : (journal.map (·.id)).Nodup

namespace Holds

variable {h h' : History} {journal : List Run} {r : Run} {id : String}

theorem empty : Holds {} [] := ⟨rfl, rfl, rfl, List.nodup_nil⟩

theorem ids_eq (H : h.Holds journal) : h.ids = journal.map (·.id) := by
  rw [ids, H.runs, List.map_map]
  rfl

theorem mem_ids_iff (H : h.Holds journal) : id ∈ h.ids ↔ ∃ r ∈ journal, r.id = id := by
  rw [H.ids_eq, List.mem_map]

/-- Recording a run appends it to the journal. -/
theorem record (H : h.Holds journal) (hrec : h.record r = .ok h') :
    h'.Holds (journal ++ [r]) := by
  unfold History.record at hrec
  split at hrec
  · next hacc =>
    cases hrec
    have hfree := (accepts_iff.mp hacc).1
    rw [H.ids_eq] at hfree
    refine ⟨?_, ?_, ?_, ?_⟩
    · rw [H.runs, List.map_append, List.map_singleton]
    · rw [H.renames, Run.rows, Run.rows, List.flatMap_append, List.flatMap_singleton]
    · rw [H.hoisted, Run.rows, Run.rows, List.flatMap_append, List.flatMap_singleton]
    · rw [List.map_append, List.map_singleton]
      exact List.nodup_append.mpr ⟨H.nodup, List.nodup_singleton _, by
        rintro a ha b hb rfl
        exact hfree (List.mem_singleton.mp hb ▸ ha)⟩
  · cases hrec

/-- Taking runs out of a history takes them out of the journal. -/
theorem restrict (H : h.Holds journal) (p : String → Bool) :
    (h.restrict p).Holds (journal.filter fun r => p r.id) := by
  refine ⟨?_, ?_, ?_, ?_⟩
  · rw [History.restrict, H.runs, List.filter_map]
    rfl
  · rw [History.restrict, H.renames, Run.filter_rows]
  · rw [History.restrict, H.hoisted, Run.filter_rows]
  · exact H.nodup.sublist (List.filter_sublist.map _)

/-- A stored run is found under its id, with its details. -/
theorem get (H : h.Holds journal) (hr : r ∈ journal) : h.get r.id = .ok (some r.kept) := by
  have hrenames : detailsOf h.renames r.id = r.renames := by
    rw [H.renames, Run.detailsOf_rows H.nodup hr]
  have hhoisted : detailsOf h.hoisted r.id = r.hoisted := by
    rw [H.hoisted, Run.detailsOf_rows H.nodup hr]
  have hcomplete : h.complete r.toRunHeader.stored = r.kept := by
    unfold complete
    change Run.mk r.toRunHeader.stored (detailsOf h.renames r.id) (detailsOf h.hoisted r.id) = _
    rw [hrenames, hhoisted]
    rfl
  have hstored : r.toRunHeader.stored ∈ h.runs := by
    rw [H.runs]
    exact List.mem_map_of_mem hr
  obtain ⟨first, rest, hmatching, hfirst, hid⟩ := exists_matching hstored
  -- No other run has the id.
  have hsame : first = r.toRunHeader.stored := by
    rw [H.runs] at hfirst
    obtain ⟨x, hx, rfl⟩ := List.mem_map.mp hfirst
    rw [List.inj_on_of_nodup_map H.nodup hx hr hid]
  have hmatching : h.matching r.id = r.toRunHeader.stored :: rest := hsame ▸ hmatching
  rw [History.get, hmatching]
  cases rest with
  | nil => exact congrArg (fun x => Except.ok (some x)) hcomplete
  | cons other rest =>
    exact (if_pos rfl).trans (congrArg (fun x => Except.ok (some x)) hcomplete)

theorem mem_ids_of_mem_renames (H : h.Holds journal) {row : HistoryRow ChangedName}
    (hrow : row ∈ h.renames) : row.run ∈ h.ids := by
  rw [H.renames] at hrow
  exact H.mem_ids_iff.mpr (Run.exists_of_mem_rows hrow)

theorem mem_ids_of_mem_hoisted (H : h.Holds journal) {row : HistoryRow CopiedDeclaration}
    (hrow : row ∈ h.hoisted) : row.run ∈ h.ids := by
  rw [H.hoisted] at hrow
  exact H.mem_ids_iff.mpr (Run.exists_of_mem_rows hrow)

end Holds

/-! ### Rows that may be added -/

/-- Adds rows to a table of details up to the first that may not be added: the table then,
and whether all rows are in it. -/
def addRows {α : Type} (ids : List String) (table : List (HistoryRow α)) :
    List (HistoryRow α) → List (HistoryRow α) × Bool
  | [] => (table, true)
  | row :: rest =>
    if ids.contains row.run && !table.any fun x => x.run == row.run && x.seq == row.seq then
      addRows ids (table ++ [row]) rest
    else (table, false)

/-- Records a run row by row up to the first that may not be added: the history then, and
whether all rows are in it. -/
def enter (h : History) (r : Run) : History × Bool :=
  if r.id ∈ h.ids ∨ r.kind ∉ RunHeader.kinds ∨ r.status ∉ RunHeader.statuses then (h, false)
  else
    let h := { h with runs := h.runs ++ [r.toRunHeader.stored] }
    let (renames, complete) := addRows h.ids h.renames (HistoryRow.number r.id r.renames)
    let h := { h with renames := renames }
    if complete then
      let (hoisted, complete) := addRows h.ids h.hoisted (HistoryRow.number r.id r.hoisted)
      ({ h with hoisted := hoisted }, complete)
    else (h, false)

/-- Rows that count up can be added to a table without a row of their run. -/
theorem addRows_eq {α : Type} {ids : List String} {run : String} {table rows : List (HistoryRow α)}
    (hrun : run ∈ ids) (hrows : ∀ row ∈ rows, row.run = run)
    (hseq : rows.Pairwise fun a b => a.seq < b.seq)
    (hfree : ∀ x ∈ table, ∀ row ∈ rows, x.run = run → x.seq < row.seq) :
    addRows ids table rows = (table ++ rows, true) := by
  induction rows generalizing table with
  | nil => rw [addRows, List.append_nil]
  | cons row rest ih =>
    have hhead : row.run = run := hrows row List.mem_cons_self
    have hnew : (table.any fun x => x.run == row.run && x.seq == row.seq) = false := by
      refine List.any_eq_false.mpr fun x hx heq => ?_
      rw [Bool.and_eq_true, beq_iff_eq, beq_iff_eq] at heq
      have hlt := hfree x hx row List.mem_cons_self (heq.1.trans hhead)
      exact Nat.ne_of_lt hlt heq.2
    have hmem : ids.contains row.run = true := List.contains_iff_mem.mpr (hhead ▸ hrun)
    obtain ⟨hfirst, hrest⟩ := List.pairwise_cons.mp hseq
    rw [addRows, hnew, hmem, Bool.not_false, Bool.and_self, if_pos rfl,
      ih (fun x hx => hrows x (List.mem_cons_of_mem _ hx)) hrest, List.append_assoc,
      List.singleton_append]
    intro x hx y hy hxrun
    rcases List.mem_append.mp hx with hx | hx
    · exact hfree x hx y (List.mem_cons_of_mem _ hy) hxrun
    · obtain rfl := List.mem_singleton.mp hx
      exact hfirst y hy

/-- The details of a new run can be added. -/
theorem addRows_number {α : Type} {ids : List String} {run : String}
    {table : List (HistoryRow α)} (hrun : run ∈ ids) (hnew : ∀ row ∈ table, row.run ≠ run)
    (items : List α) : addRows ids table (HistoryRow.number run items) =
      (table ++ HistoryRow.number run items, true) :=
  addRows_eq hrun (fun _ hrow => HistoryRow.run_of_mem_number hrow)
    (HistoryRow.pairwise_number run items) fun x hx _ _ heq => absurd heq (hnew x hx)

theorem accepts_eq_false_iff {h : History} {r : Run} : h.accepts r = false ↔
    r.id ∈ h.ids ∨ r.kind ∉ RunHeader.kinds ∨ r.status ∉ RunHeader.statuses := by
  rw [← Bool.not_eq_true, accepts_iff, not_and_or, not_not, not_and_or]

/-- **Either all rows of a run are added or none.** -/
theorem Holds.enter_eq {h : History} {journal : List Run} (H : h.Holds journal) (r : Run) :
    h.enter r = match h.record r with
      | .ok h' => (h', true)
      | .error _ => (h, false) := by
  unfold enter History.record
  cases hacc : h.accepts r with
  | true =>
    obtain ⟨hfree, hkind, hstatus⟩ := accepts_iff.mp hacc
    have hallowed : ¬ (r.id ∈ h.ids ∨ r.kind ∉ RunHeader.kinds ∨ r.status ∉ RunHeader.statuses) := by
      rw [← accepts_eq_false_iff, hacc]
      exact Bool.noConfusion
    -- Once the run is in the first table, its details have a run to belong to.
    have hmem : r.id ∈ (h.runs ++ [r.toRunHeader.stored]).map (·.id) := by
      rw [List.map_append]
      exact List.mem_append_right _ (List.mem_singleton.mpr rfl)
    have hrenames := addRows_number hmem
      (fun row hrow heq => hfree (heq ▸ H.mem_ids_of_mem_renames hrow)) r.renames
    have hhoisted := addRows_number hmem
      (fun row hrow heq => hfree (heq ▸ H.mem_ids_of_mem_hoisted hrow)) r.hoisted
    rw [if_neg hallowed, if_pos rfl]
    dsimp only [ids]
    rw [hrenames]
    dsimp only
    rw [if_pos rfl, hhoisted]
  | false => rw [if_pos (accepts_eq_false_iff.mp hacc), if_neg Bool.noConfusion]

/-! ### Runs deleted with their rows -/

/-- Deletes some runs, with the rows that refer to them. -/
def deleteRuns (h : History) (gone : RunHeader → Bool) : History :=
  let deleted (run : String) : Bool := h.runs.any fun r => r.id == run && gone r
  { runs := h.runs.filter fun r => !gone r
    renames := h.renames.filter fun row => !deleted row.run
    hoisted := h.hoisted.filter fun row => !deleted row.run }

/-- Rows that refer to no deleted run are those that refer to another run. -/
theorem Holds.deleteRuns_eq {h : History} {journal : List Run} (H : h.Holds journal)
    (p : String → Bool) : (h.deleteRuns fun r => !p r.id) = h.restrict p := by
  have hdeleted {run : String} (hrun : run ∈ h.ids) :
      (!h.runs.any fun r => r.id == run && !p r.id) = p run := by
    cases hp : p run with
    | true =>
      rw [Bool.not_eq_true', List.any_eq_false]
      rintro r - hboth
      rw [Bool.and_eq_true, beq_iff_eq] at hboth
      rw [hboth.1, hp] at hboth
      exact Bool.noConfusion hboth.2
    | false =>
      rw [Bool.not_eq_false', List.any_eq_true]
      obtain ⟨r, hr, rfl⟩ := List.mem_map.mp hrun
      exact ⟨r, hr, by rw [beq_self_eq_true, hp]; rfl⟩
  unfold deleteRuns History.restrict
  simp only [Bool.not_not]
  rw [List.filter_congr fun row hrow => hdeleted (H.mem_ids_of_mem_renames hrow),
    List.filter_congr fun row hrow => hdeleted (H.mem_ids_of_mem_hoisted hrow)]

/-! ### The newest runs -/

theorem pairwise_newest (h : History) : h.newest.Pairwise fun a b => notBefore a b = true :=
  List.pairwise_mergeSort notBefore_trans notBefore_total _

theorem perm_newest (h : History) : h.newest.Perm h.runs :=
  (List.mergeSort_perm _ _).trans (List.reverse_perm _)

namespace Holds

variable {h : History} {journal : List Run}

/-- Pruning leaves the newest runs. -/
theorem runs_prune (H : h.Holds journal) (k : Nat) :
    (h.prune k).runs.Perm (h.newest.take k) := by
  have hkeeps (id : String) : h.keeps k id = true ↔ id ∈ (h.newest.take k).map (·.id) := by
    rw [keeps_natCast, any_id_eq_true]
  have hids : (h.newest.map (·.id)).Nodup := by
    rw [(h.perm_newest.map _).nodup_iff, ← ids, H.ids_eq]
    exact H.nodup
  rw [← List.take_append_drop k h.newest, List.map_append, List.nodup_append] at hids
  have hleft : h.newest.filter (fun r => h.keeps k r.id) = h.newest.take k := by
    conv_lhs => rw [← List.take_append_drop k h.newest]
    rw [List.filter_append, List.filter_eq_self.mpr, List.filter_eq_nil_iff.mpr, List.append_nil]
    · intro r hr hkept
      exact hids.2.2 _ ((hkeeps r.id).mp hkept) _ (List.mem_map_of_mem hr) rfl
    · exact fun r hr => (hkeeps r.id).mpr (List.mem_map_of_mem hr)
  rw [prune_eq, ← hleft]
  exact (h.perm_newest.filter _).symm

theorem length_prune (H : h.Holds journal) (k : Nat) :
    (h.prune k).runs.length = min h.runs.length k := by
  rw [(H.runs_prune k).length_eq, List.length_take, h.perm_newest.length_eq, Nat.min_comm]

/-- No run that is left started before one that is removed. -/
theorem le_of_prune (H : h.Holds journal) {k : Nat} {x y : RunHeader}
    (hx : x ∈ (h.prune k).runs) (hy : y ∈ h.runs) (hgone : y ∉ (h.prune k).runs) :
    y.startedAt.le x.startedAt = true := by
  have hperm := H.runs_prune k
  rw [hperm.mem_iff] at hx hgone
  have hdrop : y ∈ h.newest.drop k := by
    rw [← h.perm_newest.mem_iff, ← List.take_append_drop k h.newest, List.mem_append] at hy
    exact hy.resolve_left hgone
  have hsorted := h.pairwise_newest
  rw [← List.take_append_drop k h.newest] at hsorted
  exact (List.pairwise_append.mp hsorted).2.2 x hx y hdrop

end Holds

/-! ### Histories after steps -/

/-- All runs, by their timestamps from the last on. -/
def latest (h : History) : List RunHeader :=
  h.runs.reverse.mergeSort fun a b => decide (b.startedAt.stamp ≤ a.startedAt.stamp)

theorem newest_eq_latest {h : History} (hera : ∀ r ∈ h.runs, r.startedAt.InEra) :
    h.newest = h.latest := by
  have hsame : h.newest.map id = (h.runs.reverse.map id).mergeSort
      fun a b => decide (b.startedAt.stamp ≤ a.startedAt.stamp) := by
    refine List.map_mergeSort fun a ha b hb => ?_
    rw [List.mem_reverse] at ha hb
    rw [Bool.eq_iff_iff, decide_eq_true_iff]
    exact (Instant.stamp_le_iff (hera b hb) (hera a ha)).symm
  rwa [List.map_id, List.map_id] at hsame

/-- Deletes all runs but some with the last timestamps, with the rows that refer to them. -/
def deleteBut (h : History) (k : Nat) : History :=
  h.deleteRuns fun r => !(h.latest.take k).any fun x => x.id == r.id

end History

/-- What is done to a history. -/
inductive HistoryStep where
  | record (r : Run)
  | prune (keep : Int)

namespace History

/-- Does a step; a run that cannot be recorded leaves the history as it is. -/
def perform (h : History) : HistoryStep → History
  | .record r => (h.record r).toOption.getD h
  | .prune keep => h.prune keep

/-- The history after some steps. -/
def after (steps : List HistoryStep) : History := steps.foldl perform {}

theorem after_concat (steps : List HistoryStep) (step : HistoryStep) :
    after (steps ++ [step]) = (after steps).perform step := by
  rw [after, after, List.foldl_append, List.foldl_cons, List.foldl_nil]

/-- A step has recorded the run, and a run of its id has been stored ever since. -/
def Recorded (steps : List HistoryStep) (r : Run) : Prop :=
  ∃ before later, steps = before ++ .record r :: later ∧
    ((after before).record r).isOk = true ∧
    ∀ mid, mid <+: later → r.id ∈ (after (before ++ .record r :: mid)).ids

theorem Recorded.concat {steps : List HistoryStep} {r : Run} {step : HistoryStep}
    (h : Recorded steps r) (hid : r.id ∈ (after (steps ++ [step])).ids) :
    Recorded (steps ++ [step]) r := by
  obtain ⟨before, later, rfl, hok, hstored⟩ := h
  refine ⟨before, later ++ [step], by rw [List.append_assoc, List.cons_append], hok, ?_⟩
  intro mid hmid
  rcases List.prefix_concat_iff.mp hmid with rfl | hmid
  · rwa [List.append_assoc, List.cons_append] at hid
  · exact hstored mid hmid

theorem Recorded.of_record {steps : List HistoryStep} {r : Run} {h : History}
    (hrec : (after steps).record r = .ok h) (hid : r.id ∈ h.ids) :
    Recorded (steps ++ [.record r]) r := by
  refine ⟨steps, [], rfl, by rw [hrec]; rfl, ?_⟩
  intro mid hmid
  obtain rfl := List.prefix_nil.mp hmid
  rw [after_concat, perform, hrec]
  exact hid

/-- **After any steps the history holds runs that were recorded and never removed.** -/
theorem exists_holds_after (steps : List HistoryStep) :
    ∃ journal, (after steps).Holds journal ∧ ∀ r ∈ journal, Recorded steps r := by
  induction steps using List.reverseRecOn with
  | nil => exact ⟨[], Holds.empty, nofun⟩
  | append_singleton steps step ih =>
    obtain ⟨journal, H, hrecorded⟩ := ih
    -- What was recorded before the step is still so if the step leaves it stored.
    have hkept {journal' : List Run} (H' : (after (steps ++ [step])).Holds journal') {r : Run}
        (hr : r ∈ journal) (hr' : r ∈ journal') : Recorded (steps ++ [step]) r :=
      (hrecorded r hr).concat (H'.mem_ids_iff.mpr ⟨r, hr', rfl⟩)
    cases step with
    | record r =>
      cases hrec : (after steps).record r with
      | error e =>
        have H' : (after (steps ++ [.record r])).Holds journal := by
          rw [after_concat, perform, hrec]
          exact H
        exact ⟨journal, H', fun x hx => hkept H' hx hx⟩
      | ok h =>
        have H' : (after (steps ++ [.record r])).Holds (journal ++ [r]) := by
          rw [after_concat, perform, hrec]
          exact H.record hrec
        refine ⟨journal ++ [r], H', fun x hx => ?_⟩
        rcases List.mem_append.mp hx with hold | hnew
        · exact hkept H' hold hx
        · obtain rfl := List.mem_singleton.mp hnew
          exact .of_record hrec ((H.record hrec).mem_ids_iff.mpr ⟨x, hx, rfl⟩)
    | prune keep =>
      have H' : (after (steps ++ [.prune keep])).Holds
          (journal.filter fun r => (after steps).keeps keep r.id) := by
        rw [after_concat, perform, prune_eq]
        exact H.restrict _
      exact ⟨_, H', fun x hx => hkept H' (List.mem_filter.mp hx).1 hx⟩

/-- Stored runs started in the era if all recorded runs did, and their starts are kept in
universal time. -/
theorem inEra_of_mem_runs {steps : List HistoryStep} {x : RunHeader}
    (hera : ∀ r, HistoryStep.record r ∈ steps → r.startedAt.InEra) (hx : x ∈ (after steps).runs) :
    x.startedAt.InEra ∧ x.startedAt.utc = x.startedAt := by
  obtain ⟨journal, H, hrecorded⟩ := exists_holds_after steps
  rw [H.runs] at hx
  obtain ⟨r, hr, rfl⟩ := List.mem_map.mp hx
  obtain ⟨before, later, rfl, -⟩ := hrecorded r hr
  obtain ⟨hyear, hnanos⟩ := hera r (List.mem_append_right _ List.mem_cons_self)
  exact ⟨⟨hyear, hnanos⟩, rfl⟩

/-- What is promised of a history after some steps. -/
structure ConsistentAfter (steps : List HistoryStep) : Prop where
  /-- A run is refused if its id is taken or its kind or status unknown, and only then. -/
  refused : ∀ r, (after steps).record r = .error .refused ↔
    r.id ∈ (after steps).ids ∨ r.kind ∉ RunHeader.kinds ∨ r.status ∉ RunHeader.statuses
  /-- A run is added with all its rows or, if it is refused, without any. -/
  entered : ∀ r, (after steps).enter r = match (after steps).record r with
    | .ok h => (h, true)
    | .error _ => (after steps, false)
  /-- All details belong to stored runs. -/
  renames : ∀ row ∈ (after steps).renames, row.run ∈ (after steps).ids
  hoisted : ∀ row ∈ (after steps).hoisted, row.run ∈ (after steps).ids
  /-- Under a stored id is the run that was recorded, with its details in their order. -/
  found : ∀ id ∈ (after steps).ids, ∃ r, Recorded steps r ∧ r.id = id ∧
    (after steps).get id = .ok (some r.kept)
  /-- The timestamp of a run tells when it started. -/
  started : ∀ x ∈ (after steps).runs, Instant.parse? x.startedAt.stamp = some x.startedAt
  /-- Pruning deletes all runs but the newest by their timestamps, and their details. -/
  pruned : ∀ k : Nat, (after steps).prune k = (after steps).deleteBut k
  /-- It leaves as many runs as it should. -/
  left : ∀ k : Nat, ((after steps).prune k).runs.length = min (after steps).runs.length k
  /-- None that it leaves started before one that it removes. -/
  newest : ∀ k : Nat, ∀ x ∈ ((after steps).prune k).runs, ∀ y ∈ (after steps).runs,
    y ∉ ((after steps).prune k).runs → y.startedAt.le x.startedAt = true

/-- **After any steps the tables are in step, and pruning keeps the newest runs.** -/
theorem consistent_after (steps : List HistoryStep)
    (hera : ∀ r, HistoryStep.record r ∈ steps → r.startedAt.InEra) : ConsistentAfter steps := by
  obtain ⟨journal, H, hrecorded⟩ := exists_holds_after steps
  refine ⟨fun r => ?_, H.enter_eq, fun _ => H.mem_ids_of_mem_renames,
    fun _ => H.mem_ids_of_mem_hoisted, fun id hid => ?_, fun x hx => ?_, fun k => ?_,
    H.length_prune, fun k x hx y hy => H.le_of_prune hx hy⟩
  · rw [← accepts_eq_false_iff, History.record]
    cases (after steps).accepts r with
    | true => exact ⟨nofun, nofun⟩
    | false => exact ⟨fun _ => rfl, fun _ => rfl⟩
  · obtain ⟨r, hr, rfl⟩ := H.mem_ids_iff.mp hid
    exact ⟨r, hrecorded r hr, rfl, H.get hr⟩
  · obtain ⟨hx, hutc⟩ := inEra_of_mem_runs hera hx
    rw [Instant.parse?_stamp hx, hutc]
  · have hlatest := newest_eq_latest fun x hx => (inEra_of_mem_runs hera hx).1
    rw [prune_eq, funext (keeps_natCast (after steps) k), hlatest]
    exact (H.deleteRuns_eq fun id => ((after steps).latest.take k).any fun x => x.id == id).symm

/-- A run that has changed two names. -/
def quickRun (id kind : String) (startedAt : Instant) : Run :=
  { id := id, kind := kind, status := "ok", startedAt := startedAt, duration := ⟨1500500⟩
    renames := [{ oldName := "internal", target := "a" }, { oldName := "secret", target := "b" }] }

/-- Two runs, a third under the id of the first, one of an unknown kind, and then all but the
newest are removed. -/
def quickSteps : List HistoryStep :=
  [.record (quickRun "run-1" "mangle" { seconds := 1772366400 }),
    .record (quickRun "run-10" "bundle" { seconds := 1772366400, nanos := 5, offset := 3600 }),
    .record (quickRun "run-1" "rename" { seconds := 1772366460 }),
    .record (quickRun "run-2" "link" { seconds := 1772366520 }), .prune 1]

theorem consistent_after_quickSteps : ConsistentAfter quickSteps := by
  refine consistent_after quickSteps fun r hr => ?_
  simp only [quickSteps, List.mem_cons, HistoryStep.record.injEq, List.not_mem_nil, or_false,
    reduceCtorEq] at hr
  rcases hr with rfl | rfl | rfl | rfl
  all_goals exact ⟨by decide, by decide⟩

end History
end Moniker
