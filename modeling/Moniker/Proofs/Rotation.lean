/-
# Rotation loses the oldest pieces and splits none

A log is written in pieces: the files found when it was opened, and then the records.
A file that is never dropped and knows the pieces it was written in is a `LogVolume`;
a `LogArchive` completes a volume whenever the log rotates, and keeps them all.

The files of a log are a window on its archive (`Window`): the current file is the
current volume, and the backups are the newest completed volumes, as many as the
policy allows.  A rotation renames the backups one by one; a gap runs down through
their numbers, and in the end each has moved up by one (`LogFiles.shiftUp_eq`).  An open
log knows the size of its current file (`OpenLog.Ready`).  So one write keeps the
window (`Window.write`), and a whole run does.  What is said of the files is then read off
the archive:

| of the files | of the archive |
| --- | --- |
| what is left are the last pieces, whole | the volumes hold all pieces in order (`Holds`) |
| a completed file is small or holds one record | so is every volume that was started empty (`Fits`) |

A rotation is due before a record that would not fit, but never for an empty file.  So
a file grows beyond the limit only by its first record that is not empty.
-/

import Moniker.Log.Rotation
import Mathlib.Data.List.Basic
import Mathlib.Data.List.Induction

namespace Moniker

/-! ### Texts one after another -/

/-- Texts written one after another. -/
def Text.concat (xs : List ByteArray) : ByteArray := xs.foldr (· ++ ·) .empty

namespace Text

variable {xs ys : List ByteArray} {x : ByteArray}

theorem concat_cons : concat (x :: xs) = x ++ concat xs := rfl

theorem concat_append : concat (xs ++ ys) = concat xs ++ concat ys := by
  induction xs with
  | nil => exact ByteArray.empty_append.symm
  | cons x xs ih => rw [List.cons_append, concat_cons, ih, concat_cons, ByteArray.append_assoc]

theorem concat_singleton : concat [x] = x := ByteArray.append_empty

theorem concat_flatten (groups : List (List ByteArray)) :
    concat groups.flatten = concat (groups.map concat) := by
  induction groups with
  | nil => rfl
  | cons g groups ih => rw [List.flatten_cons, concat_append, ih, List.map_cons, concat_cons]

/-- Texts without a byte are all empty. -/
theorem filter_size_of_size_concat (h : (concat xs).size = 0) :
    (xs.filter fun x => x.size != 0) = [] := by
  induction xs with
  | nil => rfl
  | cons x xs ih =>
    rw [concat_cons, ByteArray.size_append, Nat.add_eq_zero_iff] at h
    rw [List.filter_cons_of_neg (by simp [h.1]), ih h.2]

end Text

/-! ### Renaming backups -/

namespace LogFiles

variable {xs ys backups : List (Option ByteArray)} {b : ByteArray} {n : Nat}

/-- A gap behind a backup is moved before it, and so it is if the backup is missing. -/
theorem moveUp_gap (x : Option ByteArray) :
    moveUp (xs ++ x :: none :: ys) xs.length = xs ++ none :: x :: ys := by
  cases x with
  | none => simp [moveUp]
  | some b =>
    have hroom : xs.length + 1 + 1 - (xs.length + (ys.length + 1 + 1)) = 0 := by omega
    simp [moveUp, putAt, hroom]

/-- The last backup leaves a gap where it was. -/
theorem moveUp_last : moveUp (xs ++ [some b]) xs.length = xs ++ [none, some b] := by
  simp [moveUp, putAt]

/-- The gap goes all the way down, and all that were below it move up. -/
theorem foldl_moveUp_gap :
    (List.range xs.length).reverse.foldl moveUp (xs ++ none :: ys) = none :: (xs ++ ys) := by
  induction xs using List.reverseRecOn generalizing ys with
  | nil => rfl
  | append_singleton xs x ih =>
    rw [List.length_append, List.length_singleton, List.range_succ, List.reverse_append,
      List.reverse_singleton, List.singleton_append, List.foldl_cons, List.append_assoc,
      List.singleton_append, moveUp_gap, ih, List.append_assoc]
    rfl

/-- Where there are fewer backups than numbers, the gap begins behind the last of them. -/
theorem foldl_moveUp_last (h : xs.length < n) :
    (List.range n).reverse.foldl moveUp (xs ++ [some b]) = none :: (xs ++ [some b]) := by
  induction n with
  | zero => exact absurd h (Nat.not_lt_zero _)
  | succ n ih =>
    rw [List.range_succ, List.reverse_append, List.reverse_singleton, List.singleton_append,
      List.foldl_cons]
    rcases Nat.lt_succ_iff_lt_or_eq.mp h with hlt | rfl
    · have hmissing : moveUp (xs ++ [some b]) n = xs ++ [some b] := by
        have hlength : (xs ++ [some b]).length ≤ n := by
          rw [List.length_append]
          exact hlt
        rw [moveUp, List.getElem?_eq_none hlength]
        rfl
      rw [hmissing, ih hlt]
    · rw [moveUp_last]
      exact foldl_moveUp_gap

/-- **The renamings move the backups up by one,** up to the highest number. -/
theorem shiftUp_eq (hlast : backups.getLast? ≠ some none) (n : Nat) :
    putAt (shiftUp (n + 1) backups) 0 b = some b :: backups.take n ++ backups.drop (n + 1) := by
  have hput (ys : List (Option ByteArray)) : putAt (none :: ys) 0 b = some b :: ys := by
    simp [putAt]
  rw [shiftUp, if_neg (Nat.succ_ne_zero n), Nat.add_sub_cancel]
  rcases Nat.lt_or_ge n backups.length with hlt | hge
  · have hset : backups.set n none = backups.take n ++ none :: backups.drop (n + 1) := by
      rw [List.set_eq_take_append_cons_drop, if_pos hlt]
    have hlength : (backups.take n).length = n := by rw [List.length_take]; omega
    have hgap := @foldl_moveUp_gap (backups.take n) (backups.drop (n + 1))
    rw [hlength] at hgap
    rw [hset, hgap, hput]
    rfl
  · rw [List.set_eq_of_length_le hge, List.take_of_length_le hge,
      List.drop_eq_nil_of_le (Nat.le_succ_of_le hge), List.append_nil]
    rcases backups.eq_nil_or_concat' with rfl | ⟨xs, x, rfl⟩
    · rw [List.foldl_fixed' fun _ => rfl]
      rfl
    · cases x with
      | none => exact absurd (by simp) hlast
      | some b' =>
        rw [List.length_append] at hge
        rw [foldl_moveUp_last hge, hput]

/-- A rotation makes the current file the first backup. -/
theorem backups_rotate {p : LogPolicy} {f : LogFiles} (h : p.maxBackups.toNat = n + 1)
    (hlast : f.backups.getLast? ≠ some none) :
    (f.rotate p).backups = some f.current :: f.backups.take n ++ f.backups.drop (n + 1) := by
  have hsome : p.maxBackups ≠ 0 := by omega
  rw [rotate, if_neg hsome, h]
  exact shiftUp_eq hlast n

end LogFiles

/-- The log is open under the policy and knows the size of its current file. -/
structure OpenLog.Ready (p : LogPolicy) (l : OpenLog) : Prop where
  policy_eq : l.policy = p
  isOpen : l.isOpen = true
  size_eq : l.size = l.files.current.size

namespace OpenLog

variable {p : LogPolicy} {l : OpenLog} {record : ByteArray}

theorem ready_ofFiles (p : LogPolicy) (f : LogFiles) : Ready p (ofFiles p f) := ⟨rfl, rfl, rfl⟩

theorem Ready.makeRoom (h : Ready p l) : Ready p (l.makeRoom record) := by
  unfold OpenLog.makeRoom
  split
  · exact h.policy_eq ▸ ready_ofFiles _ _
  · exact h

theorem Ready.append (h : Ready p l) : Ready p (l.append record) where
  policy_eq := h.policy_eq
  isOpen := h.isOpen
  size_eq := by
    change l.size + record.size = (l.files.current ++ record).size
    rw [ByteArray.size_append, h.size_eq]

theorem Ready.write_eq (h : Ready p l) :
    (l.write record).1 = (l.makeRoom record).append record := by
  rw [OpenLog.write, if_pos h.isOpen]

theorem Ready.write (h : Ready p l) : Ready p (l.write record).1 := by
  rw [h.write_eq]
  exact h.makeRoom.append

end OpenLog

/-! ### Volumes and archives -/

/-- A file of a log with the pieces it was written in. -/
structure LogVolume where
  /-- What it held when the log was opened, if it was there already. -/
  held : Option ByteArray := none
  records : List ByteArray := []

namespace LogVolume

/-- What was there and the records, in the order written. -/
def pieces (v : LogVolume) : List ByteArray := v.held.toList ++ v.records

/-- What the file holds. -/
def content (v : LogVolume) : ByteArray := Text.concat v.pieces

/-- The file with one more record. -/
def append (v : LogVolume) (record : ByteArray) : LogVolume :=
  { v with records := v.records ++ [record] }

/-- Was there nothing in the file when it was started or found? -/
def StartsEmpty (v : LogVolume) : Prop := ∀ b ∈ v.held, b = .empty

/-- The records that are not empty. -/
def filled (v : LogVolume) : List ByteArray := v.records.filter fun r => r.size != 0

@[simp] theorem pieces_append (v : LogVolume) (record : ByteArray) :
    (v.append record).pieces = v.pieces ++ [record] := (List.append_assoc ..).symm

@[simp] theorem content_append (v : LogVolume) (record : ByteArray) :
    (v.append record).content = v.content ++ record := by
  rw [content, pieces_append, Text.concat_append, Text.concat_singleton, content]

@[simp] theorem filled_append (v : LogVolume) (record : ByteArray) :
    (v.append record).filled = v.filled ++ [record].filter fun r => r.size != 0 :=
  List.filter_append ..

end LogVolume

/-- All files a log has ever had. -/
structure LogArchive where
  current : LogVolume
  /-- The files completed since the log was opened, newest first. -/
  completed : List LogVolume := []
  /-- The backups found when it was opened, newest first. -/
  found : List ByteArray := []

namespace LogArchive

/-- The archive of a log that has just been opened. -/
def opened (current : ByteArray) (found : List ByteArray) : LogArchive :=
  { current := { held := some current }, found := found }

/-- Writes a record, completing the current volume first if the record does not fit. -/
def write (p : LogPolicy) (a : LogArchive) (record : ByteArray) : LogArchive :=
  if p.overflows a.current.content.size record.size then
    { a with current := { records := [record] }, completed := a.current :: a.completed }
  else { a with current := a.current.append record }

/-- Writes records one after the other. -/
def writeAll (p : LogPolicy) (a : LogArchive) (records : List ByteArray) : LogArchive :=
  records.foldl (fun a r => a.write p r) a

/-- The pieces of each file but the current one, newest first. -/
def groups (a : LogArchive) : List (List ByteArray) :=
  a.completed.map LogVolume.pieces ++ a.found.map fun b => [b]

/-- All pieces in the order written. -/
def pieces (a : LogArchive) : List ByteArray := a.groups.reverse.flatten ++ a.current.pieces

theorem pieces_opened (current : ByteArray) (found : List ByteArray) :
    (opened current found).pieces = found.reverse ++ [current] := by
  rw [pieces, groups]
  simp [opened, LogVolume.pieces, ← List.map_reverse, ← List.flatMap_def]

variable {p : LogPolicy} {a : LogArchive} {record : ByteArray} {records : List ByteArray}

/-- An archive loses no piece. -/
theorem pieces_write : (a.write p record).pieces = a.pieces ++ [record] := by
  unfold write
  split
  · simp [pieces, groups, LogVolume.pieces]
  · rw [pieces, LogVolume.pieces_append, ← List.append_assoc]
    rfl

theorem pieces_writeAll : (a.writeAll p records).pieces = a.pieces ++ records := by
  induction records generalizing a with
  | nil => exact (List.append_nil _).symm
  | cons r rest ih =>
    calc ((a.write p r).writeAll p rest).pieces
      _ = a.pieces ++ [r] ++ rest := by rw [ih, pieces_write]
      _ = a.pieces ++ r :: rest := List.append_cons .. |>.symm

/-! ### Sizes of volumes -/

/-- A volume that was started empty is small, or has one record that is not empty. -/
def Fits (p : LogPolicy) (v : LogVolume) : Prop :=
  v.StartsEmpty → (v.content.size : Int) ≤ p.maxSize ∨ v.filled.length = 1

theorem overflows_iff {size n : Nat} :
    p.overflows size n = true ↔ 0 < p.maxSize ∧ 0 < size ∧ p.maxSize < size + n := by
  rw [LogPolicy.overflows, Bool.and_eq_true, Bool.and_eq_true, decide_eq_true_iff,
    decide_eq_true_iff, decide_eq_true_iff, and_assoc]

/-- One record on an empty file fits, however long it is. -/
theorem fits_of_filled {v : LogVolume} (hmax : 0 < p.maxSize)
    (h : v.StartsEmpty → v.filled = [record].filter fun r => r.size != 0)
    (hsize : v.StartsEmpty → v.content.size = record.size) : Fits p v := by
  intro hempty
  by_cases hrecord : record.size = 0
  · left
    rw [hsize hempty, hrecord]
    exact Int.le_of_lt hmax
  · right
    rw [h hempty, List.filter_cons_of_pos (by simpa using hrecord)]
    rfl

/-- A volume that a record is appended to without a rotation fits. -/
theorem fits_append {v : LogVolume} (hmax : 0 < p.maxSize)
    (hroom : p.overflows v.content.size record.size = false) : Fits p (v.append record) := by
  have hroom' : ¬ (0 < v.content.size ∧ p.maxSize < v.content.size + record.size) := by
    intro hover
    rw [overflows_iff.mpr ⟨hmax, hover⟩] at hroom
    cases hroom
  by_cases hsize : v.content.size = 0
  · -- Only empty records have been written so far.
    have hnone : v.filled = [] := by
      have hall := Text.filter_size_of_size_concat hsize
      rw [LogVolume.pieces, List.filter_append] at hall
      exact (List.append_eq_nil_iff.mp hall).2
    have hfilled : (v.append record).filled = [record].filter fun r => r.size != 0 := by
      rw [LogVolume.filled_append, hnone, List.nil_append]
    have hcontent : (v.append record).content.size = record.size := by
      rw [LogVolume.content_append, ByteArray.size_append, hsize, Nat.zero_add]
    exact fits_of_filled hmax (fun _ => hfilled) fun _ => hcontent
  · intro _
    left
    rw [LogVolume.content_append, ByteArray.size_append]
    omega

/-- All volumes completed since the log was opened fit, and so does the current one. -/
def AllFit (p : LogPolicy) (a : LogArchive) : Prop :=
  ∀ v ∈ a.current :: a.completed, Fits p v

theorem AllFit.write (h : AllFit p a) (hmax : 0 < p.maxSize) : AllFit p (a.write p record) := by
  unfold LogArchive.write
  split
  · refine List.forall_mem_cons.mpr ⟨?_, h⟩
    exact fits_of_filled hmax (fun _ => rfl) fun _ => congrArg _ Text.concat_singleton
  · next hroom =>
    exact List.forall_mem_cons.mpr
      ⟨fits_append hmax (by simpa using hroom), (List.forall_mem_cons.mp h).2⟩

theorem AllFit.writeAll (h : AllFit p a) (hmax : 0 < p.maxSize) :
    AllFit p (a.writeAll p records) := by
  induction records generalizing a with
  | nil => exact h
  | cons r rest ih => exact ih (h.write hmax)

/-- Without a limit there is only the current volume to write to. -/
theorem exists_current_writeAll (hmax : p.maxSize ≤ 0) (a : LogArchive)
    (records : List ByteArray) : ∃ v, a.writeAll p records = { a with current := v } := by
  induction records generalizing a with
  | nil => exact ⟨a.current, rfl⟩
  | cons r rest ih =>
    have hroom : ¬ p.overflows a.current.content.size r.size = true := by
      rw [overflows_iff]
      omega
    have hwrite : a.write p r = { a with current := a.current.append r } := if_neg hroom
    obtain ⟨v, hv⟩ := ih (a.write p r)
    exact ⟨v, hv.trans (by rw [hwrite])⟩

theorem fits_of_mem_completed {current : ByteArray} {found : List ByteArray} {v : LogVolume}
    (hv : v ∈ ((opened current found).writeAll p records).completed) : Fits p v := by
  by_cases hmax : 0 < p.maxSize
  · have hopened : AllFit p (opened current found) := by
      refine List.forall_mem_cons.mpr ⟨fun hempty => .inl ?_, nofun⟩
      obtain rfl : current = .empty := hempty current rfl
      exact Int.le_of_lt hmax
    exact hopened.writeAll hmax v (List.mem_cons_of_mem _ hv)
  · obtain ⟨current', heq⟩ :=
      exists_current_writeAll (Int.not_lt.mp hmax) (opened current found) records
    rw [heq] at hv
    exact nomatch hv

/-! ### Files as a window -/

/-- The texts of all files but the current one, newest first. -/
def closed (a : LogArchive) : List ByteArray := a.completed.map LogVolume.content ++ a.found

theorem closed_eq (a : LogArchive) : a.closed = a.groups.map Text.concat := by
  have hfound : (a.found.map fun b => [b]).map Text.concat = a.found := by
    rw [List.map_map]
    exact List.map_id'' (fun b => Text.concat_singleton) a.found
  rw [groups, List.map_append, hfound, List.map_map]
  rfl

/-- The files are the current volume and the newest of the others. -/
structure Window (p : LogPolicy) (a : LogArchive) (f : LogFiles) : Prop where
  current : f.current = a.current.content
  backups : f.backups = (a.closed.take p.maxBackups.toNat).map some

/-- **A rotation completes the current volume.** -/
theorem Window.rotate {f : LogFiles} (h : Window p a f) (hp : 0 ≤ p.maxBackups) :
    Window p { a with current := {}, completed := a.current :: a.completed } (f.rotate p) := by
  by_cases hnone : p.maxBackups = 0
  · rw [LogFiles.rotate, if_pos hnone]
    refine ⟨rfl, ?_⟩
    rw [h.backups, hnone]
    rfl
  · obtain ⟨n, hn⟩ : ∃ n, p.maxBackups.toNat = n + 1 := ⟨p.maxBackups.toNat - 1, by omega⟩
    have hlast : f.backups.getLast? ≠ some none := by
      intro hlast
      rw [h.backups] at hlast
      obtain ⟨b, -, hb⟩ := List.mem_map.mp (List.mem_of_getLast? hlast)
      exact nomatch hb
    refine ⟨by rw [LogFiles.rotate, if_neg hnone]; rfl, ?_⟩
    rw [LogFiles.backups_rotate hn hlast, h.backups, hn, h.current, ← List.map_take,
      ← List.map_drop, List.take_take, List.drop_take, Nat.sub_self, List.take_zero, List.map_nil,
      List.append_nil, Nat.min_eq_left (Nat.le_succ n)]
    rfl

theorem Window.append {f : LogFiles} (h : Window p a f) :
    Window p { a with current := a.current.append record } (f.append record) :=
  ⟨by rw [LogVolume.content_append, ← h.current]; rfl, h.backups⟩

/-- **A write keeps the files a window on the archive.** -/
theorem Window.write {l : OpenLog} (h : Window p a l.files) (hl : l.Ready p)
    (hp : 0 ≤ p.maxBackups) : Window p (a.write p record) (l.write record).1.files := by
  have hsize : l.size = a.current.content.size := by rw [hl.size_eq, h.current]
  rw [hl.write_eq]
  unfold LogArchive.write OpenLog.makeRoom
  rw [hl.policy_eq, hsize]
  split
  · exact (h.rotate hp).append
  · exact h.append

theorem Window.writeAll {l : OpenLog} (h : Window p a l.files) (hl : l.Ready p)
    (hp : 0 ≤ p.maxBackups) (records : List ByteArray) :
    Window p (a.writeAll p records) (l.writeAll records).files := by
  induction records generalizing a l with
  | nil => exact h
  | cons r rest ih => exact ih (h.write hl hp) hl.write

theorem window_opened {f : LogFiles} {found : List ByteArray} (hfound : f.backups = found.map some)
    (hle : found.length ≤ p.maxBackups.toNat) : Window p (opened f.current found) f :=
  ⟨Text.concat_singleton.symm, hfound.trans (congrArg _ (List.take_of_length_le hle).symm)⟩

end LogArchive

/-- The backups, the oldest first, and then the current file. -/
def LogFiles.text (f : LogFiles) : ByteArray :=
  Text.concat (f.backups.reverse.map (·.getD .empty) ++ [f.current])

namespace LogArchive.Window

variable {p : LogPolicy} {a : LogArchive} {f : LogFiles}

/-- The files of a window hold the last pieces. -/
theorem text_eq (h : Window p a f) : f.text = Text.concat
    ((a.groups.take p.maxBackups.toNat).reverse.flatten ++ a.current.pieces) := by
  have hbackups : f.backups.reverse.map (·.getD .empty) =
      (a.groups.take p.maxBackups.toNat).reverse.map Text.concat := by
    rw [h.backups, ← List.map_reverse, List.map_map, a.closed_eq, ← List.map_take,
      ← List.map_reverse]
    exact List.map_id'' (fun _ => rfl) _
  rw [LogFiles.text, hbackups, h.current, Text.concat_append, Text.concat_singleton,
    Text.concat_append, Text.concat_flatten, LogVolume.content]

/-- What a window leaves out are the first pieces. -/
theorem exists_lost (h : Window p a f) : ∃ lost rest, a.pieces = lost ++ rest ∧
    f.text = Text.concat rest := by
  refine ⟨(a.groups.drop p.maxBackups.toNat).reverse.flatten, _, ?_, h.text_eq⟩
  rw [pieces, ← List.append_assoc, ← List.flatten_append, ← List.reverse_append,
    List.take_append_drop]

/-- A window leaves nothing out if there are no more files than it shows. -/
theorem text_of_length_le (h : Window p a f) (hle : a.groups.length ≤ p.maxBackups.toNat) :
    f.text = Text.concat a.pieces := by
  rw [h.text_eq, List.take_of_length_le hle, pieces]

theorem length_backups (h : Window p a f) : f.backups.length ≤ p.maxBackups.toNat := by
  rw [h.backups, List.length_map]
  exact List.length_take_le _ _

end LogArchive.Window

/-- What a log holds after records have been written to it. -/
structure Rotated (p : LogPolicy) (current : ByteArray) (found records : List ByteArray)
    (f : LogFiles) : Prop where
  /-- What is left are the last pieces, whole. -/
  kept : ∃ lost rest, found.reverse ++ current :: records = lost ++ rest ∧
    f.text = Text.concat rest
  /-- Without a limit nothing is lost. -/
  unlimited : p.maxSize = 0 → f.text = Text.concat (found.reverse ++ current :: records)
  /-- There are no more backups than allowed. -/
  numbered : f.backups.length ≤ p.maxBackups.toNat
  /-- The files are the newest of those that the log has ever had. -/
  window : LogArchive.Window p ((LogArchive.opened current found).writeAll p records) f
  /-- A file completed since the log was opened that was started empty is small, or has one
  record that is not empty. -/
  fits : ∀ v ∈ ((LogArchive.opened current found).writeAll p records).completed,
    v.StartsEmpty → (v.content.size : Int) ≤ p.maxSize ∨ v.filled.length = 1

/-- **Rotation loses the oldest pieces and splits none.** -/
theorem rotated_writeAll {p : LogPolicy} {f : LogFiles} {found : List ByteArray}
    (hp : 0 ≤ p.maxBackups) (hfound : f.backups = found.map some)
    (hle : (found.length : Int) ≤ p.maxBackups) (records : List ByteArray) :
    Rotated p f.current found records (f.writeAll p records) := by
  have hlen : found.length ≤ p.maxBackups.toNat := by omega
  have hwindow : LogArchive.Window p ((LogArchive.opened f.current found).writeAll p records)
      (f.writeAll p records) :=
    LogArchive.Window.writeAll (LogArchive.window_opened hfound hlen)
      (OpenLog.ready_ofFiles p f) hp records
  have hpieces : ((LogArchive.opened f.current found).writeAll p records).pieces =
      found.reverse ++ f.current :: records := by
    rw [LogArchive.pieces_writeAll, LogArchive.pieces_opened, List.append_assoc,
      List.singleton_append]
  refine ⟨?_, fun hmax => ?_, hwindow.length_backups, hwindow,
    fun v hv => LogArchive.fits_of_mem_completed hv⟩
  · rw [← hpieces]
    exact hwindow.exists_lost
  · rw [← hpieces]
    refine hwindow.text_of_length_le ?_
    obtain ⟨v, heq⟩ :=
      LogArchive.exists_current_writeAll (Int.le_of_eq hmax) (LogArchive.opened f.current found) records
    rw [heq, LogArchive.groups, List.length_append, List.length_map, List.length_map]
    exact Nat.le_trans (Nat.le_of_eq (Nat.zero_add _)) hlen

/-- A log with a backup, of which two are allowed. -/
def shortLog : LogFiles := { current := "two\n".toUTF8, backups := [some "one\n".toUTF8] }

/-- The first and the last of the records make the log rotate; the last is longer than a
file should be. -/
theorem rotated_writeAll_shortLog :
    Rotated { maxSize := 6, maxBackups := 2 } shortLog.current ["one\n".toUTF8]
      ["three\n".toUTF8, .empty, "thirteen\n".toUTF8]
      (shortLog.writeAll { maxSize := 6, maxBackups := 2 }
        ["three\n".toUTF8, .empty, "thirteen\n".toUTF8]) := by
  have hp : (0 : Int) ≤ 2 := by decide
  have hle : ((["one\n".toUTF8].length : Nat) : Int) ≤ 2 := by decide
  exact @rotated_writeAll { maxSize := 6, maxBackups := 2 } shortLog ["one\n".toUTF8] hp rfl hle _

end Moniker
