/-
# Indexed places lie in their files

The ranges of an index are whatever its maker wrote.  A range is looked up line by line, and
what is found lies in its line (`Text.Line.points_of_offset?`), hence in the file
(`Index.span?_bounds`).  What is done with it then, telling how the name is written there or
leaving out quotes, stays between its ends (`Index.locationOf?_bounds`).

On the way characters are decoded and bytes are cut out of the contents.  A character ends
before the newline that ends its line, so what is decoded in a line is what the contents hold
there (`Text.next_append`), and each time there is something left to decode
(`Text.walks_lines`).
-/

import Moniker.Proofs.Anchors
import Moniker.Proofs.Columns

namespace Moniker

namespace Text

variable {bs post pre : List UInt8} {content : ByteArray} {unit : ColumnUnit}
  {column passed bytes fuel start stop pos : Nat} {l : Line} {r : Option Nat}

/-! ### Decoding in the text itself -/

/-- Can the bytes from `start` up to `stop` be cut out of the contents? -/
def Cut (content : ByteArray) (start stop : Nat) : Prop := start ≤ stop ∧ stop ≤ content.size

/-- Walking over the characters of a text from the byte `pos`, with some columns passed, until
`column` are passed or `stop` is reached, ends in `r`.  Each character is decoded from what the
contents hold from its first byte on; a walk that finds nothing to cut there ends in nothing. -/
inductive Walks (content : ByteArray) (unit : ColumnUnit) (column stop : Nat) :
    Nat → Nat → Option Nat → Prop
  | reached {passed pos : Nat} : column ≤ passed →
      Walks content unit column stop passed pos (some pos)
  | ended {passed pos : Nat} : passed < column → stop ≤ pos →
      Walks content unit column stop passed pos none
  | read {passed pos : Nat} {c : Char × Nat} {r : Option Nat} : passed < column → pos < stop →
      Cut content pos content.size → next (content.toList.drop pos) = c →
      Walks content unit column stop (passed + unit.columns c.1 c.2) (pos + c.2) r →
      Walks content unit column stop passed pos r

theorem first?_append (hpost : post = [] ∨ post.head? = some 0x0A) (b : UInt8)
    (rest : List UInt8) : first? (b :: rest ++ post) = first? (b :: rest) := by
  rcases hpost with rfl | hhead
  · rw [List.append_nil]
  · obtain ⟨more, rfl⟩ := List.head?_eq_some_iff.mp hhead
    have htail : tail? 0x0A = none := rfl
    -- A character looks at three bytes behind its first, so the newline is met among these.
    rcases rest with _ | ⟨b1, _ | ⟨b2, _ | ⟨b3, rest⟩⟩⟩
    · grind [first?]
    · grind [first?]
    · grind [first?]
    · rfl

/-- **A character ends before a newline.** -/
theorem next_append (hpost : post = [] ∨ post.head? = some 0x0A) (h : bs ≠ []) :
    next (bs ++ post) = next bs := by
  obtain ⟨b, rest, rfl⟩ := List.exists_cons_of_ne_nil h
  rw [next, first?_append hpost, next]

theorem walks_scan (hpost : post = [] ∨ post.head? = some 0x0A)
    (hsplit : content.toList = pre ++ bs ++ post) (hpos : pre.length = start + bytes)
    (hfuel : bs.length ≤ fuel) :
    Walks content unit column (start + bytes + bs.length) passed (start + bytes)
      ((walkColumns unit column (scan fuel bs) passed bytes).map (start + ·)) := by
  induction fuel generalizing pre bs passed bytes with
  | zero =>
    obtain rfl := List.length_eq_zero_iff.mp (Nat.le_zero.mp hfuel)
    rw [scan, walkColumns_nil]
    split
    · next hle => exact .reached hle
    · next hlt => exact .ended (Nat.lt_of_not_le hlt) le_rfl
  | succ fuel ih =>
    cases bs with
    | nil =>
      rw [scan, walkColumns_nil]
      split
      · next hle => exact .reached hle
      · next hlt => exact .ended (Nat.lt_of_not_le hlt) le_rfl
    | cons b rest =>
      have hsize := congrArg List.length hsplit
      rw [length_toList, List.length_append, List.length_append, hpos] at hsize
      have hread : next (content.toList.drop (start + bytes)) = next (b :: rest) := by
        rw [hsplit, List.append_assoc, ← hpos, List.drop_left]
        exact next_append hpost (List.cons_ne_nil b rest)
      obtain ⟨hwidth, hle⟩ := next_bounds (List.cons_ne_nil b rest)
      rw [scan]
      generalize next (b :: rest) = c at hread hwidth hle ⊢
      rw [walkColumns_cons]
      split
      · next hreached => exact .reached hreached
      · next hlt =>
        have hrest : content.toList =
            (pre ++ (b :: rest).take c.2) ++ (b :: rest).drop c.2 ++ post := by
          rw [hsplit, List.append_assoc pre (List.take _ _), List.take_append_drop]
        have hbehind : (pre ++ (b :: rest).take c.2).length = start + (bytes + c.2) := by
          rw [List.length_append, List.length_take, hpos, Nat.min_eq_left hle, Nat.add_assoc]
        have hstop : start + bytes + (b :: rest).length =
            start + (bytes + c.2) + ((b :: rest).drop c.2).length := by
          rw [List.length_drop]
          omega
        refine .read (Nat.lt_of_not_le hlt) ?_ ⟨by omega, le_rfl⟩ hread ?_
        · rw [List.length_cons]
          omega
        · rw [hstop, Nat.add_assoc start bytes]
          refine ih hrest hbehind ?_
          rw [List.length_drop]
          omega

/-- **Looking up a column of a line** is walking over the text from where the line begins. -/
theorem walks_lines (hl : l ∈ lines content) (hunit : unit ≠ .bytes) (column : Nat) :
    Walks content unit column (l.start + l.bytes.length) 0 l.start (l.offset? unit column) := by
  obtain ⟨pre, post, hsplit, hstart, hpost⟩ := exists_append_of_mem_placeLines hl
  rw [Nat.zero_add] at hstart
  rw [Line.offset?_eq_map hunit]
  have hwalk : Walks content unit column (l.start + 0 + l.bytes.length) 0 (l.start + 0)
      ((walkColumns unit column (runes l.bytes) 0 0).map (l.start + ·)) :=
    walks_scan hpost hsplit hstart.symm le_rfl
  exact hwalk

end Text

namespace Index

open Text (Cut)

variable {i : Index} {p : Program} {d doc : IndexDocument} {docs : List IndexDocument} {f : FileId}
  {keep : IndexOccurrence → Bool} {h : Hit} {file symbol : String} {pos : Int} {l : Location}
  {places : List Location} {content : ByteArray} {unit : Text.ColumnUnit} {range : List Int}
  {start stop : Nat}

/-! ### Ranges -/

theorem offset?_le {line column : Int} {o : Nat}
    (h : Text.offset? (Text.lines content) unit line column = some o) : o ≤ content.size := by
  obtain ⟨n, k, -, -, l, hl, hoffset⟩ := Text.offset?_eq_some h
  exact (Text.Line.points_of_offset? hoffset).bounds.2.trans
    (Text.stop_le_of_mem_lines (List.mem_of_getElem? hl))

/-- **The bytes of a range can be cut out of the text,** whatever the range says. -/
theorem cut_of_span? (h : span? (Text.lines content) unit range = some (start, stop)) :
    Cut content start stop := by
  have hbetween {l c l' c' : Int} (h : (do
      let start ← Text.offset? (Text.lines content) unit l c
      let stop ← Text.offset? (Text.lines content) unit l' c'
      if stop < start then none else some (start, stop)) = some (start, stop)) :
      Cut content start stop := by
    obtain ⟨a, -, h⟩ := Option.bind_eq_some_iff.mp h
    obtain ⟨b, hb, h⟩ := Option.bind_eq_some_iff.mp h
    split at h
    · exact nomatch h
    · next hle =>
      obtain ⟨rfl, rfl⟩ := Prod.mk.inj (Option.some.inj h)
      exact ⟨Nat.le_of_not_lt hle, offset?_le hb⟩
  unfold span? at h
  dsimp only at h
  split at h
  · exact hbetween h
  · exact hbetween h
  · exact nomatch h

theorem cut_of_mem_hits (hmem : h ∈ (hits p d f keep).1) :
    Cut (p.source.file h.file).contents h.start h.stop := by
  obtain ⟨-, rfl, -, -, hspan⟩ := mem_hits.mp hmem
  exact cut_of_span? hspan

/-! ### Places -/

/-- What is told about an occurrence lies between its ends. -/
theorem locationOf?_bounds (hl : locationOf? p h = some l) (hle : h.start ≤ h.stop) :
    (h.start : Int) ≤ l.start ∧ l.start ≤ l.stop ∧ l.stop ≤ h.stop := by
  unfold locationOf? at hl
  grind

theorem mem_documents_of_mem_searched (hdoc : doc ∈ i.documents)
    (hd : d ∈ searched i doc symbol) : d ∈ i.documents := by
  unfold searched at hd
  split at hd
  · rwa [List.mem_singleton.mp hd]
  · exact hd

/-- Does the place lie within a loaded file that a document of the index is about? -/
def LiesWithin (i : Index) (p : Program) (l : Location) : Prop :=
  ∃ d ∈ i.documents, l.file = d.path ∧ ∃ f, p.fileAt? d.path = some f ∧
    0 ≤ l.start ∧ l.start ≤ l.stop ∧ l.stop ≤ (p.source.file f).contents.size

theorem liesWithin_of_mem_spelled (hdocs : ∀ d ∈ docs, d ∈ i.documents)
    (hl : l ∈ spelled p docs symbol) : LiesWithin i p l := by
  obtain ⟨h, hmem, hloc⟩ := List.mem_filterMap.mp hl
  obtain ⟨d, hd, f, hf, hhit⟩ := mem_gather.mp (mem_of_mem_distinct hmem)
  obtain ⟨hpath, hfile, -⟩ := mem_hits.mp hhit
  have hcut := cut_of_mem_hits hhit
  rw [hfile] at hcut
  obtain ⟨hstart, hle, hstop⟩ := locationOf?_bounds hloc hcut.1
  have hsize := hcut.2
  exact ⟨d, hdocs d hd, (locationOf?_file hloc).trans hpath, f, hf, by omega, hle, by omega⟩

/-- What is found for a place was found from an occurrence that stands there. -/
theorem exists_of_locate (hok : i.locate p file pos = .ok places) :
    ∃ doc ∈ i.documents, ∃ symbol, places = (placesOf p i doc symbol).1 := by
  unfold locate lookup at hok
  dsimp only at hok
  split at hok
  · exact nomatch hok
  · next doc hdoc =>
    split at hok
    · exact nomatch hok
    · split at hok
      · exact nomatch hok
      · next h _ =>
        exact ⟨doc, (document?_eq_some hdoc).1, h.occurrence.symbol, (Except.ok.inj hok).symm⟩

theorem locationLe_iff {a b : Location} :
    locationLe a b = true ↔ a.file < b.file ∨ a.file = b.file ∧ a.start ≤ b.start := by
  unfold locationLe Text.lexLe
  by_cases hfile : a.file = b.file
  · simp [hfile]
  · have hlt : a.file ≤ b.file ↔ a.file < b.file :=
      ⟨fun hle => String.not_le.mp fun hge => hfile (String.le_antisymm hle hge),
        fun hlt => (String.le_total a.file b.file).resolve_right (String.not_le.mpr hlt)⟩
    simp [hfile, hlt]

/-- What a look-up in an index touches lies within the files. -/
structure InBounds (i : Index) (p : Program) (file : String) (pos : Int) : Prop where
  /-- Every place lies within a loaded file. -/
  places : ∀ places, i.locate p file pos = .ok places → ∀ l ∈ places, LiesWithin i p l
  /-- Places are in the order of their files, and within a file of their starts. -/
  ordered : ∀ places, i.locate p file pos = .ok places →
    places.Pairwise fun a b => a.file < b.file ∨ a.file = b.file ∧ a.start ≤ b.start
  /-- The bytes of an occurrence can be cut out of the file. -/
  cuts : ∀ d f keep, ∀ h ∈ (hits p d f keep).1,
    Cut (p.source.file h.file).contents h.start h.stop
  /-- So can those that are decoded to find a column. -/
  walks : ∀ f, ∀ l ∈ Text.lines (p.source.file f).contents, ∀ unit ≠ .bytes, ∀ column,
    Text.Walks (p.source.file f).contents unit column (l.start + l.bytes.length) 0 l.start
      (l.offset? unit column)

/-- **No index leads out of a file:** whatever its ranges say, the places it tells are places in
loaded files, and nothing outside of the contents is looked at on the way. -/
theorem inBounds_locate (i : Index) (p : Program) (file : String) (pos : Int) :
    InBounds i p file pos where
  places places hok l hl := by
    obtain ⟨doc, hdoc, symbol, rfl⟩ := exists_of_locate hok
    exact liesWithin_of_mem_spelled (fun d => mem_documents_of_mem_searched hdoc)
      (mem_placesOf.mp hl).1
  ordered places hok := by
    obtain ⟨doc, -, symbol, rfl⟩ := exists_of_locate hok
    exact (List.pairwise_mergeSort locationLe_trans locationLe_total _).imp locationLe_iff.mp
  cuts d f keep h hmem := cut_of_mem_hits hmem
  walks f l hl unit hunit column := Text.walks_lines hl hunit column

end Index
end Moniker
