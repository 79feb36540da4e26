/-
# Positions and the bytes they stand for

A text falls into lines, and every byte of it belongs to one of them, a newline to the line
it ends (`Text.exists_line`).  So the line of a byte is the last that begins at or before it
(`Text.position_of_line`).

Within a line a column is reached by passing characters, which are passed whole.  Passing
as many columns as the characters before a byte take leads to that byte
(`Text.walkColumns_append`); any other column lies inside a character that takes two of
them, and stands for the byte behind it (`Text.walkColumns_eq_some`).
-/

import Moniker.Proofs.Bytes
import Moniker.Text.Lines

namespace Moniker
namespace Text

variable {bs : List UInt8} {cs before after : List (Char × Nat)} {c : Char × Nat}
  {unit : ColumnUnit} {l : Line} {ls : List Line} {content : ByteArray}
  {fuel column passed bytes n o : Nat}

/-! ### Walking along a line -/

/-- The columns that some characters take. -/
def ColumnUnit.columnsOf (unit : ColumnUnit) : List (Char × Nat) → Nat
  | [] => 0
  | c :: cs => unit.columns c.1 c.2 + unit.columnsOf cs

@[simp] theorem ColumnUnit.columnsOf_nil : unit.columnsOf [] = 0 := rfl

@[simp] theorem ColumnUnit.columnsOf_cons :
    unit.columnsOf (c :: cs) = unit.columns c.1 c.2 + unit.columnsOf cs := rfl

@[simp] theorem ColumnUnit.columnsOf_append :
    unit.columnsOf (before ++ after) = unit.columnsOf before + unit.columnsOf after := by
  induction before with
  | nil => simp
  | cons c before ih => simp [ih, Nat.add_assoc]

/-- Counted in bytes, the columns of characters are their bytes. -/
theorem ColumnUnit.columnsOf_bytes (cs : List (Char × Nat)) :
    ColumnUnit.bytes.columnsOf cs = widthOf cs := by
  induction cs with
  | nil => rfl
  | cons c cs ih => rw [columnsOf_cons, widthOf_cons, ih, columns]

theorem ColumnUnit.columns_pos (unit : ColumnUnit) (h : 0 < c.2) : 0 < unit.columns c.1 c.2 := by
  cases unit with
  | halves =>
    rw [columns]
    split
    · exact Nat.two_pos
    · exact Nat.one_pos
  | bytes => exact h
  | characters => exact Nat.one_pos

theorem walkColumns_nil :
    walkColumns unit column [] passed bytes = if column ≤ passed then some bytes else none := rfl

theorem walkColumns_cons : walkColumns unit column (c :: cs) passed bytes =
    if column ≤ passed then some bytes
    else walkColumns unit column cs (passed + unit.columns c.1 c.2) (bytes + c.2) := rfl

theorem walkColumns_of_le (h : column ≤ passed) (cs : List (Char × Nat)) :
    walkColumns unit column cs passed bytes = some bytes := by
  cases cs with
  | nil => exact if_pos h
  | cons c cs => exact if_pos h

/-- **A column of a character stands for the end of the character.** -/
theorem walkColumns_inside {k : Nat} (h : ∀ d ∈ before, 0 < d.2) (hk : 0 < k)
    (hc : k ≤ unit.columns c.1 c.2) :
    walkColumns unit (passed + unit.columnsOf before + k) (before ++ c :: after) passed bytes =
      some (bytes + widthOf (before ++ [c])) := by
  induction before generalizing passed bytes with
  | nil =>
    have hmore : ¬ passed + unit.columnsOf [] + k ≤ passed := by simp; omega
    have hreached : passed + unit.columnsOf [] + k ≤ passed + unit.columns c.1 c.2 := by
      simpa using hc
    rw [List.nil_append, walkColumns_cons, if_neg hmore, walkColumns_of_le hreached]
    simp
  | cons d before ih =>
    have hd := unit.columns_pos (h d List.mem_cons_self)
    have hmore : ¬ passed + unit.columnsOf (d :: before) + k ≤ passed := by simp; omega
    rw [List.cons_append, walkColumns_cons, if_neg hmore, ColumnUnit.columnsOf_cons, ← Nat.add_assoc,
      ih fun e he => h e (List.mem_cons_of_mem _ he), List.cons_append, widthOf_cons, Nat.add_assoc]

/-- **Passing the columns of some characters passes their bytes.** -/
theorem walkColumns_append (h : ∀ c ∈ before, 0 < c.2) (after : List (Char × Nat)) :
    walkColumns unit (unit.columnsOf before) (before ++ after) 0 0 = some (widthOf before) := by
  rcases List.eq_nil_or_concat before with rfl | ⟨front, c, rfl⟩
  · exact walkColumns_of_le le_rfl _
  · rw [List.concat_eq_append] at h ⊢
    have hc := unit.columns_pos (h c (by simp))
    have hwalk : walkColumns unit (0 + unit.columnsOf front + unit.columns c.1 c.2)
        (front ++ c :: after) 0 0 = some (0 + widthOf (front ++ [c])) :=
      walkColumns_inside (fun d hd => h d (List.mem_append_left _ hd)) hc le_rfl
    simpa using hwalk

/-- **A column is reached behind a character,** and was not reached before it. -/
theorem walkColumns_eq_some (h : walkColumns unit column cs passed bytes = some o) :
    ∃ before after, cs = before ++ after ∧ o = bytes + widthOf before ∧
      column ≤ passed + unit.columnsOf before ∧
      (before = [] ∨
        ∃ front c, before = front ++ [c] ∧ passed + unit.columnsOf front < column) := by
  induction cs generalizing passed bytes with
  | nil =>
    rw [walkColumns_nil] at h
    split at h
    · next hle => exact ⟨[], [], rfl, (Option.some.inj h).symm, hle, .inl rfl⟩
    · exact nomatch h
  | cons c cs ih =>
    rw [walkColumns_cons] at h
    split at h
    · next hle => exact ⟨[], c :: cs, rfl, (Option.some.inj h).symm, hle, .inl rfl⟩
    · next hlt =>
      obtain ⟨before, after, rfl, rfl, hle, hlast⟩ := ih h
      refine ⟨c :: before, after, rfl, ?_, ?_, .inr ?_⟩
      · rw [widthOf_cons, Nat.add_assoc]
      · rwa [ColumnUnit.columnsOf_cons, ← Nat.add_assoc]
      · rcases hlast with rfl | ⟨front, d, rfl, hfront⟩
        · exact ⟨[], c, rfl, Nat.lt_of_not_le hlt⟩
        · refine ⟨c :: front, d, rfl, ?_⟩
          rwa [ColumnUnit.columnsOf_cons, ← Nat.add_assoc]

theorem walkColumns_eq_none_iff :
    walkColumns unit column cs passed bytes = none ↔ passed + unit.columnsOf cs < column := by
  induction cs generalizing passed bytes with
  | nil => simp [walkColumns_nil]
  | cons c cs ih =>
    rw [walkColumns_cons, ColumnUnit.columnsOf_cons, ← Nat.add_assoc]
    split
    · next hle => simpa using (by omega : column ≤ passed + unit.columns c.1 c.2 + _)
    · exact ih

/-- **Counting back:** the columns before a byte are those of the characters before it. -/
theorem countColumns_append (h : ∀ c ∈ before, 0 < c.2) (after : List (Char × Nat)) :
    countColumns unit ((passed + widthOf before : Nat) : Int) (before ++ after) passed =
      unit.columnsOf before := by
  induction before generalizing passed with
  | nil => cases after <;> simp [countColumns]
  | cons c before ih =>
    have hc := h c List.mem_cons_self
    have hlt : (passed : Int) < ((passed + widthOf (c :: before) : Nat) : Int) := by
      rw [widthOf_cons]
      omega
    rw [List.cons_append, countColumns, if_pos hlt, ColumnUnit.columnsOf_cons, widthOf_cons,
      ← Nat.add_assoc, ih fun d hd => h d (List.mem_cons_of_mem _ hd)]

/-! ### Lines -/

theorem splitLines_ne_nil (bs : List UInt8) : splitLines bs ≠ [] := by
  unfold splitLines
  grind

/-- A line holds the bytes of the text from its start up to a newline or the end. -/
theorem exists_append_of_mem_placeLines {start : Nat} (h : l ∈ placeLines start (splitLines bs)) :
    ∃ pre post, bs = pre ++ l.bytes ++ post ∧ l.start = start + pre.length ∧
      (post = [] ∨ post.head? = some 0x0A) := by
  induction bs generalizing start l with
  | nil =>
    obtain rfl := List.mem_singleton.mp h
    exact ⟨[], [], rfl, rfl, .inl rfl⟩
  | cons b rest ih =>
    rw [splitLines] at h
    split at h
    · next hb =>
      rcases List.mem_cons.mp h with rfl | h
      · exact ⟨[], b :: rest, rfl, rfl, .inr (congrArg some hb)⟩
      · obtain ⟨pre, post, rfl, hstart, hpost⟩ := ih h
        exact ⟨b :: pre, post, rfl, by rw [hstart, List.length_cons, List.length_nil]; omega, hpost⟩
    · split at h
      · next hnil => exact absurd hnil (splitLines_ne_nil rest)
      · next line more hsplit =>
        rw [hsplit] at ih
        rcases List.mem_cons.mp h with rfl | h
        · have hmem : ⟨start + 1, line⟩ ∈ placeLines (start + 1) (line :: more) :=
            List.mem_cons_self
          obtain ⟨pre, post, hrest, hstart, hpost⟩ := ih hmem
          obtain rfl : pre = [] := List.length_eq_zero_iff.mp (Nat.left_eq_add.mp hstart)
          exact ⟨[], post, congrArg (b :: ·) hrest, rfl, hpost⟩
        · have hmem : l ∈ placeLines (start + 1) (line :: more) := by
            refine List.mem_cons_of_mem _ ?_
            rwa [Nat.add_right_comm start 1 line.length]
          obtain ⟨pre, post, rfl, hstart, hpost⟩ := ih hmem
          exact ⟨b :: pre, post, rfl, by rw [hstart, List.length_cons]; omega, hpost⟩

theorem le_start_of_mem_placeLines {start : Nat} {pieces : List (List UInt8)}
    (h : l ∈ placeLines start pieces) : start ≤ l.start := by
  induction pieces generalizing start with
  | nil => exact nomatch h
  | cons piece pieces ih =>
    rcases List.mem_cons.mp h with rfl | h
    · exact le_rfl
    · have hle := ih h
      omega

/-- **Lines follow each other,** with room for a newline between them. -/
theorem pairwise_placeLines (start : Nat) (pieces : List (List UInt8)) :
    (placeLines start pieces).Pairwise fun a b => a.start + a.bytes.length < b.start := by
  induction pieces generalizing start with
  | nil => exact .nil
  | cons piece pieces ih =>
    exact .cons (fun b hb => le_start_of_mem_placeLines hb) (ih _)

theorem exists_mem_placeLines {start : Nat} (hstart : start ≤ o) (hstop : o ≤ start + bs.length) :
    ∃ l ∈ placeLines start (splitLines bs), l.start ≤ o ∧ o ≤ l.start + l.bytes.length := by
  induction bs generalizing start with
  | nil => exact ⟨_, List.mem_cons_self, hstart, hstop⟩
  | cons b rest ih =>
    rw [List.length_cons] at hstop
    rw [splitLines]
    split
    · rcases Nat.eq_or_lt_of_le hstart with rfl | hlt
      · exact ⟨_, List.mem_cons_self, le_rfl, Nat.le_add_right _ _⟩
      · obtain ⟨l, hl, hle, hge⟩ := ih (show start + 1 ≤ o from hlt) (by omega)
        exact ⟨l, List.mem_cons_of_mem _ hl, hle, hge⟩
    · split
      · next hnil => exact absurd hnil (splitLines_ne_nil rest)
      · next line more hsplit =>
        rcases Nat.eq_or_lt_of_le hstart with rfl | hlt
        · exact ⟨_, List.mem_cons_self, le_rfl, Nat.le_add_right _ _⟩
        · obtain ⟨l, hl, hle, hge⟩ := ih (show start + 1 ≤ o from hlt) (by omega)
          rw [hsplit] at hl
          rcases List.mem_cons.mp hl with rfl | hl
          · have hline : o ≤ start + 1 + line.length := hge
            refine ⟨_, List.mem_cons_self, hstart, ?_⟩
            change o ≤ start + (line.length + 1)
            omega
          · refine ⟨l, List.mem_cons_of_mem _ ?_, hle, hge⟩
            rwa [Nat.add_right_comm start 1 line.length] at hl

/-- **Every byte of a text belongs to a line,** and so does its end. -/
theorem exists_line (h : o ≤ content.size) :
    ∃ l ∈ lines content, l.start ≤ o ∧ o ≤ l.start + l.bytes.length := by
  refine exists_mem_placeLines (Nat.zero_le o) ?_
  rwa [Nat.zero_add, length_toList]

/-- A line ends within its text. -/
theorem stop_le_of_mem_lines (h : l ∈ lines content) :
    l.start + l.bytes.length ≤ content.size := by
  obtain ⟨pre, post, hsplit, hstart, -⟩ := exists_append_of_mem_placeLines h
  have hlen := congrArg List.length hsplit
  rw [length_toList, List.length_append, List.length_append] at hlen
  omega

/-- The lines that begin at or before a byte of the `n`-th line: that line and the `n` before it. -/
theorem length_takeWhile_start (h : ls.Pairwise fun a b => a.start + a.bytes.length < b.start)
    (hl : ls[n]? = some l) (hstart : l.start ≤ o) (hstop : o ≤ l.start + l.bytes.length) :
    ((ls.drop 1).takeWhile fun l => (l.start : Int) ≤ o).length = n := by
  obtain ⟨hn, hget⟩ := List.getElem?_eq_some_iff.mp hl
  have hsplit : ls = ls.take n ++ l :: ls.drop (n + 1) := by
    rw [← hget, List.getElem_cons_drop, List.take_append_drop]
  have hlen : (ls.take n).length = n := by
    rw [List.length_take]
    omega
  generalize ls.take n = front at hsplit hlen
  generalize ls.drop (n + 1) = back at hsplit
  subst hsplit
  obtain ⟨-, hback, hfront⟩ := List.pairwise_append.mp h
  have hnone : back.takeWhile (fun l => decide ((l.start : Int) ≤ o)) = [] := by
    cases back with
    | nil => rfl
    | cons b back =>
      have hlt := (List.pairwise_cons.mp hback).1 b List.mem_cons_self
      refine List.takeWhile_cons_of_neg ?_
      simpa using (by omega : o < b.start)
  cases front with
  | nil => rw [List.nil_append, List.drop_succ_cons, List.drop_zero, hnone, ← hlen]
  | cons a front =>
    have hall : ∀ b ∈ front ++ [l], decide ((b.start : Int) ≤ o) = true := by
      intro b hb
      rcases List.mem_append.mp hb with hb | hb
      · have hlt := hfront b (List.mem_cons_of_mem _ hb) l List.mem_cons_self
        simpa using (by omega : b.start ≤ o)
      · rw [List.mem_singleton.mp hb]
        simpa using hstart
    rw [List.cons_append, List.drop_succ_cons, List.drop_zero, ← List.singleton_append,
      ← List.append_assoc, List.takeWhile_append_of_pos hall, hnone, List.append_nil, ← hlen]
    simp

/-! ### Columns of a line -/

namespace Line

/-- The columns of a line. -/
def columns (l : Line) (unit : ColumnUnit) : Nat := unit.columnsOf (runes l.bytes)

/-- The columns from the start of a line to a byte. -/
def columnAt (l : Line) (unit : ColumnUnit) (o : Nat) : Nat :=
  match unit with
  | .bytes => o - l.start
  | unit => countColumns unit ((o - l.start : Nat) : Int) (runes l.bytes) 0

/-- Can a column point at the byte: in bytes at any byte of the line and at its end, in other
units where a character begins and at the end? -/
def Points (l : Line) (unit : ColumnUnit) (o : Nat) : Prop :=
  match unit with
  | .bytes => l.start ≤ o ∧ o ≤ l.start + l.bytes.length
  | _ => ∃ before after, runes l.bytes = before ++ after ∧ o = l.start + widthOf before

/-- Is the column, counted in halves, the middle of a character of two halves? -/
def SplitsPair (l : Line) (column : Nat) : Prop :=
  ∃ before c after, runes l.bytes = before ++ c :: after ∧ 0x10000 ≤ c.1.toNat ∧
    column = ColumnUnit.halves.columnsOf before + 1

theorem offset?_eq_map (h : unit ≠ .bytes) (l : Line) (column : Nat) :
    l.offset? unit column = (walkColumns unit column (runes l.bytes) 0 0).map (l.start + ·) := by
  cases unit with
  | bytes => exact absurd rfl h
  | halves => rfl
  | characters => rfl

theorem columnAt_eq (h : unit ≠ .bytes) (hsplit : runes l.bytes = before ++ after) :
    l.columnAt unit (l.start + widthOf before) = unit.columnsOf before := by
  have hpos : ∀ c ∈ before, 0 < c.2 := fun c hc =>
    width_pos_of_mem_runes (hsplit ▸ List.mem_append_left after hc)
  have hcount : countColumns unit ((0 + widthOf before : Nat) : Int) (before ++ after) 0 =
      unit.columnsOf before := countColumns_append hpos after
  rw [Nat.zero_add, ← hsplit] at hcount
  rw [← hcount]
  unfold columnAt
  rw [Nat.add_sub_cancel_left]
  cases unit with
  | bytes => exact absurd rfl h
  | halves => rfl
  | characters => rfl

theorem points_iff (h : unit ≠ .bytes) : l.Points unit o ↔
    ∃ before after, runes l.bytes = before ++ after ∧ o = l.start + widthOf before := by
  cases unit with
  | bytes => exact absurd rfl h
  | halves => rfl
  | characters => rfl

theorem Points.bounds (h : l.Points unit o) : l.start ≤ o ∧ o ≤ l.start + l.bytes.length := by
  by_cases hunit : unit = .bytes
  · subst hunit
    exact h
  · obtain ⟨before, after, hsplit, rfl⟩ := (points_iff hunit).mp h
    have hlen := widthOf_runes l.bytes
    rw [hsplit, widthOf_append] at hlen
    omega

/-- **From a byte to its column and back.** -/
theorem Points.offset?_columnAt (h : l.Points unit o) :
    l.offset? unit (l.columnAt unit o) = some o := by
  by_cases hunit : unit = .bytes
  · subst hunit
    obtain ⟨hstart, hstop⟩ := h
    have hle : o - l.start ≤ l.bytes.length := by omega
    simp only [offset?, columnAt, if_pos hle, Nat.add_sub_cancel' hstart]
  · obtain ⟨before, after, hsplit, rfl⟩ := (points_iff hunit).mp h
    have hpos : ∀ c ∈ before, 0 < c.2 := fun c hc =>
      width_pos_of_mem_runes (hsplit ▸ List.mem_append_left after hc)
    rw [offset?_eq_map hunit, columnAt_eq hunit hsplit, hsplit, walkColumns_append hpos after,
      Option.map_some]

theorem points_of_offset? (h : l.offset? unit column = some o) : l.Points unit o := by
  by_cases hunit : unit = .bytes
  · subst hunit
    simp only [offset?] at h
    split at h
    · next hle =>
      obtain rfl := Option.some.inj h
      exact ⟨Nat.le_add_right _ _, Nat.add_le_add_left hle _⟩
    · exact nomatch h
  · rw [offset?_eq_map hunit] at h
    obtain ⟨bytes, hwalk, rfl⟩ := Option.map_eq_some_iff.mp h
    obtain ⟨before, after, hsplit, rfl, -⟩ := walkColumns_eq_some hwalk
    rw [Nat.zero_add]
    exact (points_iff hunit).mpr ⟨before, after, hsplit, rfl⟩

/-- **From a column to its byte and back,** unless the column splits a pair. -/
theorem columnAt_of_offset? (h : l.offset? unit column = some o)
    (hwhole : unit = .halves → ¬ l.SplitsPair column) : l.columnAt unit o = column := by
  by_cases hunit : unit = .bytes
  · subst hunit
    simp only [offset?] at h
    split at h
    · obtain rfl := Option.some.inj h
      exact Nat.add_sub_cancel_left l.start column
    · exact nomatch h
  · rw [offset?_eq_map hunit] at h
    obtain ⟨bytes, hwalk, rfl⟩ := Option.map_eq_some_iff.mp h
    obtain ⟨before, after, hsplit, rfl, hle, hlast⟩ := walkColumns_eq_some hwalk
    rw [Nat.zero_add] at hle ⊢
    rw [columnAt_eq hunit hsplit]
    rcases hlast with rfl | ⟨front, c, rfl, hfront⟩
    · exact (Nat.le_zero.mp hle).symm
    · rw [Nat.zero_add] at hfront
      rw [ColumnUnit.columnsOf_append, ColumnUnit.columnsOf_cons, ColumnUnit.columnsOf_nil,
        Nat.add_zero] at hle ⊢
      cases unit with
      | bytes => exact absurd rfl hunit
      | characters =>
        rw [ColumnUnit.columns] at hle ⊢
        omega
      | halves =>
        rw [ColumnUnit.columns] at hle ⊢
        split at hle
        · next hwide =>
          have hne : column ≠ ColumnUnit.halves.columnsOf front + 1 := fun hmid =>
            hwhole rfl ⟨front, c, after, by rw [hsplit, List.append_assoc, List.singleton_append],
              hwide, hmid⟩
          rw [if_pos hwide]
          omega
        · next hnarrow =>
          rw [if_neg hnarrow]
          omega

/-- **The middle of a pair** stands for the end of the pair. -/
theorem columnAt_of_splitsPair (h : l.offset? .halves column = some o)
    (hsplits : l.SplitsPair column) : l.columnAt .halves o = column + 1 := by
  obtain ⟨before, c, after, hsplit, hwide, rfl⟩ := hsplits
  have hunit : ColumnUnit.halves ≠ .bytes := nofun
  have hpos : ∀ d ∈ before, 0 < d.2 := fun d hd =>
    width_pos_of_mem_runes (hsplit ▸ List.mem_append_left (c :: after) hd)
  have htwo : ColumnUnit.halves.columns c.1 c.2 = 2 := if_pos hwide
  have hwalk : walkColumns .halves (0 + ColumnUnit.halves.columnsOf before + 1)
      (before ++ c :: after) 0 0 = some (0 + widthOf (before ++ [c])) :=
    walkColumns_inside hpos Nat.one_pos (by rw [htwo]; decide)
  rw [Nat.zero_add, Nat.zero_add, ← hsplit] at hwalk
  rw [offset?_eq_map hunit, hwalk] at h
  obtain rfl := Option.some.inj h
  have hbehind : runes l.bytes = (before ++ [c]) ++ after := by simpa using hsplit
  rw [columnAt_eq hunit hbehind]
  simp [htwo]

theorem offset?_eq_none_iff : l.offset? unit column = none ↔ l.columns unit < column := by
  by_cases hunit : unit = .bytes
  · subst hunit
    rw [columns, ColumnUnit.columnsOf_bytes, widthOf_runes, ← Nat.not_le]
    simp [offset?]
  · rw [offset?_eq_map hunit, Option.map_eq_none_iff, walkColumns_eq_none_iff, Nat.zero_add,
      columns]

end Line

/-- **The line of a byte** is the one it lies in. -/
theorem position_of_line (hl : (lines content)[n]? = some l) (hstart : l.start ≤ o)
    (hstop : o ≤ l.start + l.bytes.length) :
    position (lines content) unit o = ((n : Int), (l.columnAt unit o : Int)) := by
  have hlen := length_takeWhile_start (pairwise_placeLines 0 (splitLines content.toList)) hl hstart
    hstop
  have hsub : (o : Int) - l.start = ((o - l.start : Nat) : Int) := by omega
  unfold position Line.columnAt
  dsimp only
  rw [← lines] at hlen
  rw [hlen, hl, Option.getD_some, hsub]
  cases unit <;> rfl

/-- The line that a position names decides about its column. -/
theorem offset?_eq_some {line column : Int} (h : offset? ls unit line column = some o) :
    ∃ n k : Nat, line = n ∧ column = k ∧ ∃ l, ls[n]? = some l ∧ l.offset? unit k = some o := by
  unfold offset? at h
  split at h
  · exact nomatch h
  · next hneg =>
    obtain ⟨l, hl, hoffset⟩ := Option.bind_eq_some_iff.mp h
    exact ⟨line.toNat, column.toNat, by omega, by omega, l, hl, hoffset⟩

theorem offset?_of_line (hl : ls[n]? = some l) (unit : ColumnUnit) (column : Nat) :
    offset? ls unit n column = l.offset? unit column := by
  have hneg : ¬ ((n : Int) < 0 ∨ (column : Int) < 0) := by omega
  rw [offset?, if_neg hneg, Int.toNat_natCast, Int.toNat_natCast, hl, Option.bind_some]

/-! ### There and back -/

/-- Can a position point at the byte of a text: in bytes at every byte and at the end, in other
units where a character of a line begins and at the end of a line? -/
def Boundary (content : ByteArray) (unit : ColumnUnit) (o : Nat) : Prop :=
  match unit with
  | .bytes => o ≤ content.size
  | _ => ∃ l ∈ lines content, ∃ before after, runes l.bytes = before ++ after ∧
      o = l.start + widthOf before

/-- Is the position, counted in halves, the middle of a character of two halves? -/
def SplitsPair (content : ByteArray) (unit : ColumnUnit) (line column : Int) : Prop :=
  unit = .halves ∧ ∃ n k : Nat, line = n ∧ column = k ∧
    ∃ l, (lines content)[n]? = some l ∧ l.SplitsPair k

/-- Does the position lie outside of a text: before it, below its last line or behind the end of
its line? -/
def Outside (content : ByteArray) (unit : ColumnUnit) (line column : Int) : Prop :=
  line < 0 ∨ column < 0 ∨ (lines content).length ≤ line ∨
    ∃ n : Nat, line = n ∧ ∃ l, (lines content)[n]? = some l ∧ l.columns unit < column

/-- Positions and bytes of a text lead to each other. -/
structure RoundTrips (content : ByteArray) (unit : ColumnUnit) : Prop where
  /-- From a byte and back. -/
  ofByte : ∀ o : Nat, Boundary content unit o →
    offset? (lines content) unit (position (lines content) unit o).1
      (position (lines content) unit o).2 = some o
  /-- From a position and back. -/
  ofPosition : ∀ (line column : Int) (o : Nat), offset? (lines content) unit line column = some o →
    ¬ SplitsPair content unit line column → position (lines content) unit o = (line, column)
  /-- From the middle of a pair to its end. -/
  ofMiddle : ∀ (line column : Int) (o : Nat), offset? (lines content) unit line column = some o →
    SplitsPair content unit line column → position (lines content) unit o = (line, column + 1)
  /-- Only a position outside stands for no byte. -/
  outside : ∀ line column : Int,
    offset? (lines content) unit line column = none ↔ Outside content unit line column

theorem Boundary.exists_line (h : Boundary content unit o) :
    ∃ l ∈ lines content, l.Points unit o := by
  cases unit with
  | bytes => exact Text.exists_line h
  | halves => exact h
  | characters => exact h

theorem offset?_eq_none_iff_outside (content : ByteArray) (unit : ColumnUnit)
    (line column : Int) :
    offset? (lines content) unit line column = none ↔ Outside content unit line column := by
  by_cases hneg : line < 0 ∨ column < 0
  · refine iff_of_true (if_pos hneg) ?_
    rcases hneg with hline | hcolumn
    · exact .inl hline
    · exact .inr (.inl hcolumn)
  · obtain ⟨hline, hcolumn⟩ := not_or.mp hneg
    obtain ⟨n, rfl⟩ := Int.eq_ofNat_of_zero_le (Int.not_lt.mp hline)
    obtain ⟨k, rfl⟩ := Int.eq_ofNat_of_zero_le (Int.not_lt.mp hcolumn)
    unfold Outside
    rw [or_iff_right hline, or_iff_right hcolumn]
    cases hl : (lines content)[n]? with
    | none =>
      have hlen := List.getElem?_eq_none_iff.mp hl
      refine iff_of_true ?_ (.inl (by omega))
      rw [offset?, if_neg hneg, Int.toNat_natCast, hl, Option.bind_none]
    | some l =>
      have hlen := (List.getElem?_eq_some_iff.mp hl).1
      rw [offset?_of_line hl, Line.offset?_eq_none_iff, or_iff_right (by omega)]
      constructor
      · intro hlt
        exact ⟨n, rfl, l, hl, by omega⟩
      · rintro ⟨n', hn, l', hl', hlt⟩
        obtain rfl : n = n' := by omega
        obtain rfl : l = l' := Option.some.inj (hl.symm.trans hl')
        omega

/-- **Positions and bytes lead to each other.** -/
theorem roundTrips_lines (content : ByteArray) (unit : ColumnUnit) : RoundTrips content unit where
  ofByte o h := by
    obtain ⟨l, hl, hpoints⟩ := h.exists_line
    obtain ⟨n, hn⟩ := List.mem_iff_getElem?.mp hl
    rw [position_of_line hn hpoints.bounds.1 hpoints.bounds.2, offset?_of_line hn]
    exact hpoints.offset?_columnAt
  ofPosition line column o h hwhole := by
    obtain ⟨n, k, rfl, rfl, l, hl, hoffset⟩ := offset?_eq_some h
    have hbounds := (Line.points_of_offset? hoffset).bounds
    rw [position_of_line hl hbounds.1 hbounds.2, Line.columnAt_of_offset? hoffset]
    exact fun hunit hsplits => hwhole ⟨hunit, n, k, rfl, rfl, l, hl, hsplits⟩
  ofMiddle line column o h hsplits := by
    obtain ⟨n, k, rfl, rfl, l, hl, hoffset⟩ := offset?_eq_some h
    obtain ⟨rfl, n', k', hn, hk, l', hl', hmiddle⟩ := hsplits
    obtain rfl : n = n' := by omega
    obtain rfl : k = k' := by omega
    obtain rfl : l = l' := Option.some.inj (hl.symm.trans hl')
    have hbounds := (Line.points_of_offset? hoffset).bounds
    rw [position_of_line hl hbounds.1 hbounds.2, Line.columnAt_of_splitsPair hoffset hmiddle]
    rfl
  outside := offset?_eq_none_iff_outside content unit

/-- Behind an emoji, which takes four bytes, two halves or one character. -/
example : position (lines "s\n😀x".toUTF8) .halves 6 = (1, 2) ∧
    offset? (lines "s\n😀x".toUTF8) .halves 1 2 = some 6 ∧
    offset? (lines "s\n😀x".toUTF8) .halves 1 1 = some 6 ∧
    offset? (lines "s\n😀x".toUTF8) .bytes 1 4 = some 6 ∧
    offset? (lines "s\n😀x".toUTF8) .characters 1 1 = some 6 := by
  rw [lines, toList_eq]
  decide

end Text
end Moniker
