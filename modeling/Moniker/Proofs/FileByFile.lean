/-
# Renames are applied file by file

`Rename.apply` takes all the edits of a file or none.  The edits of a file are
those of the renames that change a name, in the order they are asked for
(`editsIn`); a file without any is left alone.  A file with edits is either
rewritten by the checked edits or refused with one report placed in it, and which
of the two depends on nothing but its source and its own edits.

The paths are sorted and each is taken once (`paths_pairwise`), and an outcome says
of which path it is (`applyFile_path`).  So what a result holds of a file is the one
outcome of that file (`filesAt_apply`, `diagnosticsAt_apply`), and the four
statements of `FileByFile` are read off `applyFile`.
-/

import Moniker.Proofs.Labels
import Moniker.Rename.Apply

namespace Moniker

namespace Text

theorem sort_pairwise (xs : List String) : (sort xs).Pairwise (· ≤ ·) := by
  have hsorted := @List.pairwise_mergeSort _ lexLe
    (fun a b c hab hbc => by
      rw [lexLe, decide_eq_true_iff] at hab hbc ⊢
      exact le_trans hab hbc)
    (fun a b => by
      rw [lexLe, lexLe, Bool.or_eq_true, decide_eq_true_iff, decide_eq_true_iff]
      exact le_total a b) xs
  exact hsorted.imp fun h => of_decide_eq_true h

theorem mem_sort {xs : List String} {x : String} : x ∈ sort xs ↔ x ∈ xs :=
  List.mem_mergeSort

/-- Sorting texts that are pairwise different puts them in strict order. -/
theorem sort_pairwise_lt {xs : List String} (h : xs.Nodup) : (sort xs).Pairwise (· < ·) := by
  have hnodup : (sort xs).Nodup := (List.mergeSort_perm xs lexLe).nodup_iff.2 h
  exact ((sort_pairwise xs).and hnodup).imp fun ⟨hle, hne⟩ => lt_of_le_of_ne hle hne

end Text

namespace Edit

variable {file : String} {content : ByteArray}

/-- A refused edit is reported in its file, as an overlap or as a wrong range. -/
theorem accept_error {done : List Edit} {e : Edit} {d : Diagnostic}
    (h : accept file content done e = .error d) :
    d.place.map Place.file = some file ∧ (d.code = .internalError ∨ d.code = .overlappingEdit) := by
  unfold accept at h
  split at h
  · obtain rfl := Except.error.inj h
    exact ⟨rfl, .inl rfl⟩
  split at h
  · obtain rfl := Except.error.inj h
    exact ⟨rfl, .inl rfl⟩
  split at h
  · cases h
  split at h
  · cases h
  split at h
  · obtain rfl := Except.error.inj h
    exact ⟨rfl, .inr rfl⟩
  · cases h

theorem foldlM_accept_error {edits : List Edit} {d : Diagnostic} :
    ∀ {done : List Edit}, edits.foldlM (accept file content) done = .error d →
      ∃ done e, accept file content done e = .error d := by
  induction edits with
  | nil => exact fun h => nomatch h
  | cons e rest ih =>
    intro done h
    rw [List.foldlM_cons] at h
    cases hstep : accept file content done e with
    | error d' =>
      rw [hstep] at h
      obtain rfl := Except.error.inj h
      exact ⟨done, e, hstep⟩
    | ok done' =>
      rw [hstep] at h
      exact ih h

theorem normalize_error {edits : List Edit} {d : Diagnostic}
    (h : normalize file content edits = .error d) :
    d.place.map Place.file = some file ∧ (d.code = .internalError ∨ d.code = .overlappingEdit) := by
  unfold normalize at h
  cases hfold : (edits.mergeSort le).foldlM (accept file content) [] with
  | ok done =>
    rw [hfold] at h
    cases h
  | error d' =>
    rw [hfold] at h
    obtain rfl := Except.error.inj h
    obtain ⟨done, e, hstep⟩ := foldlM_accept_error hfold
    exact accept_error hstep

end Edit

namespace FileOutcome

/-- The rewritten file, if the outcome is one. -/
def file? : FileOutcome → Option FileResult
  | .applied f => some f
  | _ => none

/-- The file an outcome is of: the one rewritten, or the one reported on. -/
def path? (o : FileOutcome) : Option String :=
  match o with
  | .applied f => some f.path
  | _ => (RenameResult.outcomeDiagnostic? o).bind fun d => d.place.map Place.file

end FileOutcome

namespace RenameResult

/-- What a result holds of a file. -/
def filesAt (r : RenameResult) (file : String) : List FileResult :=
  r.files.filter fun f => f.path == file

/-- The reports of a result that are placed in a file. -/
def diagnosticsAt (r : RenameResult) (file : String) : List Diagnostic :=
  r.diagnostics.filter fun d => d.place.map Place.file == some file

/-- The files the reports of a result are placed in, in their order. -/
def reported (r : RenameResult) : List (Option String) :=
  r.diagnostics.map fun d => d.place.map Place.file

end RenameResult

namespace Rename

variable {sources sources' : String → Option ByteArray} {items items' : List RenameItem}
  {file : String}

/-- The edits that renames put into a file, in the order they are asked for. -/
def editsIn (items : List RenameItem) (file : String) : List Edit :=
  ((editsOf items).filter fun e => e.1 == file).map Prod.snd

/-- Does a rename that changes a name have a place in the file? -/
def Touches (items : List RenameItem) (file : String) : Prop :=
  ∃ i ∈ items, i.target ≠ i.oldName ∧ ∃ l ∈ i.locations, l.file = file

/-- The paths of the files with edits, in the order they are taken. -/
def paths (items : List RenameItem) : List String :=
  Text.sort ((editsOf items).map Prod.fst).eraseDups

theorem mem_paths : file ∈ paths items ↔ Touches items file := by
  rw [paths, Text.mem_sort, List.mem_eraseDups, editsOf]
  simp only [List.mem_map, List.mem_flatMap, List.mem_filter, bne_iff_ne, Touches]
  constructor
  · rintro ⟨-, ⟨i, ⟨hi, hne⟩, l, hl, rfl⟩, rfl⟩
    exact ⟨i, hi, hne, l, hl, rfl⟩
  · rintro ⟨i, hi, hne, l, hl, rfl⟩
    exact ⟨_, ⟨i, ⟨hi, hne⟩, l, hl, rfl⟩, rfl⟩

instance : Decidable (Touches items file) := decidable_of_iff _ mem_paths

theorem paths_pairwise (items : List RenameItem) : (paths items).Pairwise (· < ·) :=
  Text.sort_pairwise_lt (nodup_eraseDups _)

theorem touches_iff_editsIn_ne_nil : Touches items file ↔ editsIn items file ≠ [] := by
  rw [← mem_paths, paths, Text.mem_sort, List.mem_eraseDups, editsIn, ne_eq, List.map_eq_nil_iff,
    List.filter_eq_nil_iff]
  simp

/-- What becomes of a file: nothing is read but its source and its edits. -/
theorem applyFile_congr (hsource : sources file = sources' file)
    (hedits : editsIn items file = editsIn items' file) :
    applyFile sources (editsOf items) file = applyFile sources' (editsOf items') file := by
  unfold editsIn at hedits
  rw [applyFile, applyFile, hsource, hedits]

theorem applyFile_cases (sources : String → Option ByteArray) (items : List RenameItem)
    (file : String) :
    (sources file = none ∧ applyFile sources (editsOf items) file = .missing file) ∨
    (∃ content d, sources file = some content ∧
      Edit.normalize file content (editsIn items file) = .error d ∧
      applyFile sources (editsOf items) file = .rejected d) ∨
    ∃ content edits, sources file = some content ∧
      Edit.normalize file content (editsIn items file) = .ok edits ∧
      applyFile sources (editsOf items) file =
        .applied (FileResult.ofEdits file content edits) := by
  unfold editsIn applyFile
  cases hsource : sources file with
  | none => exact .inl ⟨rfl, rfl⟩
  | some content =>
    dsimp only
    cases hchecked : Edit.normalize file content
        (((editsOf items).filter fun e => e.1 == file).map Prod.snd) with
    | error d => exact .inr (.inl ⟨content, d, rfl, hchecked, rfl⟩)
    | ok edits => exact .inr (.inr ⟨content, edits, rfl, hchecked, rfl⟩)

end Rename

theorem FileResult.ofEdits_path (path : String) (content : ByteArray) (edits : List Edit) :
    (FileResult.ofEdits path content edits).path = path := by
  unfold FileResult.ofEdits
  split <;> rfl

namespace Rename

theorem applyFile_path (sources : String → Option ByteArray) (items : List RenameItem)
    (file : String) : (applyFile sources (editsOf items) file).path? = some file := by
  obtain ⟨-, h⟩ | ⟨content, d, -, hchecked, h⟩ | ⟨content, edits, -, -, h⟩ :=
    applyFile_cases sources items file
  · rw [h]
    rfl
  · rw [h]
    exact (Edit.normalize_error hchecked).1
  · rw [h]
    exact congrArg some (FileResult.ofEdits_path file content edits)

/-- What a file is rewritten to, if it is. -/
def rewrite? (sources : String → Option ByteArray) (items : List RenameItem) (file : String) :
    Option FileResult :=
  (applyFile sources (editsOf items) file).file?

/-- The report of a file, if it is not rewritten. -/
def report? (sources : String → Option ByteArray) (items : List RenameItem) (file : String) :
    Option Diagnostic :=
  RenameResult.outcomeDiagnostic? (applyFile sources (editsOf items) file)

theorem files_apply :
    (apply sources items).files = (paths items).filterMap (rewrite? sources items) :=
  List.filterMap_map

theorem diagnostics_apply :
    (apply sources items).diagnostics = (paths items).filterMap (report? sources items) :=
  List.filterMap_map

theorem path_of_rewrite? {f : FileResult} (h : rewrite? sources items file = some f) :
    some f.path = some file := by
  have hpath := applyFile_path sources items file
  unfold rewrite? at h
  cases hout : applyFile sources (editsOf items) file with
  | applied f' =>
    rw [hout] at h hpath
    obtain rfl := Option.some.inj h
    exact hpath
  | missing path =>
    rw [hout] at h
    cases h
  | rejected d =>
    rw [hout] at h
    cases h

theorem place_of_report? {d : Diagnostic} (h : report? sources items file = some d) :
    d.place.map Place.file = some file := by
  have hpath := applyFile_path sources items file
  unfold report? at h
  cases hout : applyFile sources (editsOf items) file with
  | applied f =>
    rw [hout] at h
    cases h
  | missing path =>
    rw [hout] at h hpath
    obtain rfl := Option.some.inj h
    exact hpath
  | rejected d' =>
    rw [hout] at h hpath
    obtain rfl := Option.some.inj h
    exact hpath

/-- A result holds of a file what the file was rewritten to. -/
theorem filesAt_apply (sources : String → Option ByteArray) (items : List RenameItem)
    (file : String) : (apply sources items).filesAt file =
      if Touches items file then (rewrite? sources items file).toList else [] := by
  have hnodup : (paths items).Nodup := (paths_pairwise items).imp ne_of_lt
  have h := filter_filterMap_of_label (f := rewrite? sources items)
    (fun _ _ => path_of_rewrite?) file hnodup
  rw [← files_apply, if_congr mem_paths rfl rfl] at h
  exact h

/-- The reports placed in a file are its own. -/
theorem diagnosticsAt_apply (sources : String → Option ByteArray) (items : List RenameItem)
    (file : String) : (apply sources items).diagnosticsAt file =
      if Touches items file then (report? sources items file).toList else [] := by
  have hnodup : (paths items).Nodup := (paths_pairwise items).imp ne_of_lt
  have h := filter_filterMap_of_label (f := report? sources items)
    (fun _ _ => place_of_report?) file hnodup
  rw [← diagnostics_apply, if_congr mem_paths rfl rfl] at h
  exact h

/-- The reports stand in the order of the paths, each placed in a file of its own. -/
theorem reported_apply (sources : String → Option ByteArray) (items : List RenameItem) :
    ∃ files : List String, (apply sources items).reported = files.map some ∧
      files.Pairwise (· < ·) := by
  refine ⟨(paths items).filter fun x => (report? sources items x).isSome, ?_,
    (paths_pairwise items).filter _⟩
  rw [RenameResult.reported, diagnostics_apply]
  exact map_filterMap_of_label (fun _ _ => place_of_report?) (paths items)

/-- The file is rewritten, by all its checked edits, and nothing is reported of it. -/
def Rewritten (sources : String → Option ByteArray) (items : List RenameItem) (r : RenameResult)
    (file : String) : Prop :=
  ∃ content edits, sources file = some content ∧
    Edit.normalize file content (editsIn items file) = .ok edits ∧
    r.filesAt file = [FileResult.ofEdits file content edits] ∧ r.diagnosticsAt file = []

/-- The file is not rewritten, and one report says why: it has no source, or the first
edit that cannot be taken has a wrong range or overlaps. -/
def Refused (sources : String → Option ByteArray) (items : List RenameItem) (r : RenameResult)
    (file : String) : Prop :=
  r.filesAt file = [] ∧ ∃ d, r.diagnosticsAt file = [d] ∧
    ((sources file = none ∧ d.code = .fileNotFound) ∨
      ∃ content, sources file = some content ∧
        Edit.normalize file content (editsIn items file) = .error d ∧
        (d.code = .internalError ∨ d.code = .overlappingEdit))

theorem rewritten_or_refused (h : Touches items file) :
    Rewritten sources items (apply sources items) file ∨
      Refused sources items (apply sources items) file := by
  have hfiles := filesAt_apply sources items file
  have hdiags := diagnosticsAt_apply sources items file
  rw [if_pos h, rewrite?] at hfiles
  rw [if_pos h, report?] at hdiags
  obtain ⟨hsource, hout⟩ | ⟨content, d, hsource, hchecked, hout⟩ |
    ⟨content, edits, hsource, hchecked, hout⟩ := applyFile_cases sources items file
  · rw [hout] at hfiles hdiags
    exact .inr ⟨hfiles, _, hdiags, .inl ⟨hsource, rfl⟩⟩
  · rw [hout] at hfiles hdiags
    have hcode := (Edit.normalize_error hchecked).2
    exact .inr ⟨hfiles, d, hdiags, .inr ⟨content, hsource, hchecked, hcode⟩⟩
  · rw [hout] at hfiles hdiags
    exact .inl ⟨content, edits, hsource, hchecked, hfiles, hdiags⟩

theorem untouched (h : ¬ Touches items file) :
    (apply sources items).filesAt file = [] ∧ (apply sources items).diagnosticsAt file = [] := by
  have hfiles := filesAt_apply sources items file
  have hdiags := diagnosticsAt_apply sources items file
  rw [if_neg h] at hfiles hdiags
  exact ⟨hfiles, hdiags⟩

theorem sameOutcome (hsource : sources file = sources' file)
    (hedits : editsIn items file = editsIn items' file) :
    (apply sources items).filesAt file = (apply sources' items').filesAt file ∧
      (apply sources items).diagnosticsAt file = (apply sources' items').diagnosticsAt file := by
  have htouches : Touches items file ↔ Touches items' file := by
    rw [touches_iff_editsIn_ne_nil, touches_iff_editsIn_ne_nil, hedits]
  have happly := applyFile_congr hsource hedits
  rw [filesAt_apply, filesAt_apply, diagnosticsAt_apply, diagnosticsAt_apply, rewrite?, rewrite?,
    report?, report?, happly, if_congr htouches rfl rfl, if_congr htouches rfl rfl]
  exact ⟨rfl, rfl⟩

/-- What it means that renames are applied file by file. -/
structure FileByFile (sources : String → Option ByteArray) (items : List RenameItem)
    (r : RenameResult) : Prop where
  /-- A file with edits is rewritten by all of them, or refused with one report; not
  both, since nothing is reported of a file that is rewritten. -/
  whole : ∀ file, Touches items file →
    Rewritten sources items r file ∨ Refused sources items r file
  /-- A file without edits is left alone. -/
  untouched : ∀ file, ¬ Touches items file → r.filesAt file = [] ∧ r.diagnosticsAt file = []
  /-- The reports are in the order of the paths. -/
  ordered : ∃ files : List String, r.reported = files.map some ∧ files.Pairwise (· < ·)
  /-- Other files, and the renames that do not touch this one, are of no consequence. -/
  independent : ∀ file sources' items', sources file = sources' file →
    editsIn items file = editsIn items' file →
    r.filesAt file = (apply sources' items').filesAt file ∧
      r.diagnosticsAt file = (apply sources' items').diagnosticsAt file

/-- **Every file is rewritten whole or refused, whatever happens to the others.** -/
theorem fileByFile_apply (sources : String → Option ByteArray) (items : List RenameItem) :
    FileByFile sources items (apply sources items) where
  whole _ h := rewritten_or_refused h
  untouched _ h := Rename.untouched h
  ordered := reported_apply sources items
  independent _ _ _ hsource hedits := sameOutcome hsource hedits

end Rename
end Moniker
