/-
# Checked edits are written all at once

The edits of a file are put in order, checked one after another, and then written
from the last to the first.  What comes out is the old content with every checked
range replaced by its text, read off in one pass from left to right (`rendered`).

| step | statement |
| --- | --- |
| an edit is taken | what has been taken stays apart and covers the ranges seen (`Accepted.step`) |
| all edits are taken | the checked edits ascend, stay apart, and have each range once (`checked_normalize`) |
| the edits are written | gaps and texts in one pass (`splice_eq_rendered`) |
| the changed region | old text before it, old text after it, the edits in between (`region_ofEdits`) |

An edit is only compared with the last one taken.  This is enough: an edit that is
not on the range of the last one and does not begin before its end lies behind all
that were taken.  On one range the texts have to agree, except that the new names of
a shorthand key and its value are joined once.
-/

import Moniker.Proofs.FileByFile

namespace Moniker

namespace Text

variable {content a b c : ByteArray} {i j k : Nat}

theorem slice_append_slice (hij : i ≤ j) (hjk : j ≤ k) :
    slice content i j ++ slice content j k = slice content i k :=
  (ByteArray.extract_eq_extract_append_extract j hij hjk).symm

theorem slice_self : slice content i i = ByteArray.empty := ByteArray.extract_same

theorem slice_all : slice content 0 content.size = content := ByteArray.extract_zero_size

theorem size_slice (hj : j ≤ content.size) : (slice content i j).size = j - i := by
  rw [slice, ByteArray.size_extract, Nat.min_eq_left hj]

/-- The beginning of two texts, as far as the first reaches. -/
theorem slice_append_left (hj : j ≤ a.size) : slice (a ++ b) 0 j = slice a 0 j := by
  rw [slice, ByteArray.extract_append, Nat.zero_sub, Nat.sub_eq_zero_of_le hj,
    ByteArray.extract_same, ByteArray.append_empty, slice]

/-- The second of two texts. -/
theorem slice_append_right : slice (a ++ b) a.size (a ++ b).size = b :=
  ByteArray.extract_append_eq_right rfl ByteArray.size_append

/-- The second of three texts. -/
theorem slice_append_middle : slice (a ++ b ++ c) a.size (a.size + b.size) = b := by
  rw [← ByteArray.size_append, slice, ByteArray.extract_append_size_left]
  exact slice_append_right

end Text

namespace Edit

variable {file : String} {content : ByteArray} {a b e prev joined : Edit}
  {edits out seen done done' : List Edit}

/-! ### Taking one edit -/

/-- Where an edit begins and ends. -/
def range (e : Edit) : Int × Int := (e.start, e.stop)

/-- One edit ends where the other begins or before that, and they are not on one range
of no width. -/
def Before (a b : Edit) : Prop :=
  a.stop ≤ b.start ∧ (a.start < b.start ∨ a.start = b.start ∧ a.stop < b.stop)

theorem Before.range_ne (h : Before a b) : a.range ≠ b.range := by
  intro heq
  obtain ⟨hstart, hstop⟩ := Prod.mk.inj heq
  rcases h.2 with hlt | ⟨_, hlt⟩
  · exact absurd hstart (ne_of_lt hlt)
  · exact absurd hstop (ne_of_lt hlt)

theorem Before.trans {c : Edit} (hb : b.start ≤ b.stop) (hab : Before a b) (hbc : Before b c) :
    Before a c := by
  unfold Before at *
  omega

/-- An edit on another range that does not begin before the end stands behind. -/
theorem before_of_range_ne (ha : a.start ≤ a.stop) (hb : b.start ≤ b.stop)
    (hstop : a.stop ≤ b.start) (hne : a.range ≠ b.range) : Before a b := by
  have hne' : ¬ (a.start = b.start ∧ a.stop = b.stop) := fun h => hne (Prod.ext h.1 h.2)
  unfold Before
  omega

/-- All edits of the list that are on the range have the text. -/
def Agreed (seen : List Edit) (e : Edit) : Prop :=
  ∀ x ∈ seen, x.range = e.range → x.text = e.text

/-- The text joins the new names of a shorthand key and its value, which are in the list
and on the range, and any other edit there has one of the three texts. -/
def Joined (seen : List Edit) (e : Edit) : Prop :=
  ∃ key ∈ seen, ∃ value ∈ seen, key.range = e.range ∧ value.range = e.range ∧
    key.kind = .shorthandKey ∧ value.kind = .shorthandValue ∧
    e.text = key.target ++ ": " ++ value.target ∧
    ∀ x ∈ seen, x.range = e.range → x.text = key.text ∨ x.text = value.text ∨ x.text = e.text

/-- Two edits are joined to one on their range: the first, if they have one text, or the
new names of a key and its value. -/
theorem join?_cases (h : join? prev e = some joined) :
    e.range = prev.range ∧
      ((e.text = prev.text ∧ joined = prev) ∨
        joined.range = prev.range ∧ joined.kind = .plain ∧ prev.kind ≠ .plain ∧
          ∃ key value, (key = prev ∧ value = e ∨ key = e ∧ value = prev) ∧
            key.kind = .shorthandKey ∧ value.kind = .shorthandValue ∧
            joined.text = key.target ++ ": " ++ value.target) := by
  unfold join? at h
  split at h
  · next hrange =>
    have heq : e.range = prev.range := Prod.ext hrange.1 hrange.2
    refine ⟨heq, ?_⟩
    split at h
    · next htext => exact .inl ⟨htext, (Option.some.inj h).symm⟩
    · right
      unfold mergeShorthand? at h
      split at h
      · next hprev he =>
        obtain rfl := Option.some.inj h
        exact ⟨heq, rfl, by rw [hprev]; exact nofun, e, prev, .inr ⟨rfl, rfl⟩, he, hprev, rfl⟩
      · next hprev he =>
        obtain rfl := Option.some.inj h
        exact ⟨rfl, rfl, by rw [hprev]; exact nofun, prev, e, .inl ⟨rfl, rfl⟩, hprev, he, rfl⟩
      · cases h
  · cases h

/-- An edit that is taken lies in the file, and is joined to the last one or stands
behind it. -/
theorem accept_cases (h : accept file content done e = .ok done') :
    (0 ≤ e.start ∧ e.start ≤ e.stop ∧ e.stop ≤ content.size) ∧
      ((done' = e :: done ∧ ∀ prev ∈ done.head?, prev.range ≠ e.range ∧ prev.stop ≤ e.start) ∨
        ∃ prev rest joined, done = prev :: rest ∧ join? prev e = some joined ∧
          done' = joined :: rest) := by
  unfold accept at h
  split at h
  · cases h
  next hbounds =>
  refine ⟨?_, ?_⟩
  · have hin : e.inBounds content.size = true := by simpa using hbounds
    simp only [inBounds, Bool.and_eq_true, decide_eq_true_iff] at hin
    exact ⟨hin.1.1, hin.2, hin.1.2⟩
  split at h
  · cases h
  split at h
  · exact .inl ⟨(Except.ok.inj h).symm, fun _ hprev => nomatch hprev⟩
  next prev rest =>
  split at h
  · next joined hjoin => exact .inr ⟨prev, rest, joined, rfl, hjoin, (Except.ok.inj h).symm⟩
  · split at h
    · cases h
    · next hfree =>
      rw [not_or, not_lt] at hfree
      refine .inl ⟨(Except.ok.inj h).symm, fun prev' hprev' => ?_⟩
      obtain rfl := Option.some.inj hprev'
      exact ⟨fun heq => hfree.1 ⟨(Prod.mk.inj heq).1.symm, (Prod.mk.inj heq).2.symm⟩, hfree.2⟩

/-! ### Taking all edits -/

/-- What has been taken of the edits seen so far, the last one first. -/
structure Accepted (content : ByteArray) (seen done : List Edit) : Prop where
  before : done.Pairwise fun b a => Before a b
  inBounds : ∀ e ∈ done, 0 ≤ e.start ∧ e.start ≤ e.stop ∧ e.stop ≤ content.size
  ranges : ∀ s, s ∈ done.map range ↔ s ∈ seen.map range
  /-- Only what was joined is not one of the edits seen. -/
  texts : ∀ e ∈ done, (e ∈ seen ∧ Agreed seen e) ∨ (e.kind = .plain ∧ Joined seen e)

theorem Accepted.nil : Accepted content [] [] where
  before := .nil
  inBounds _ h := nomatch h
  ranges _ := .rfl
  texts _ h := nomatch h

/-- An edit on another range changes nothing about what agrees. -/
theorem Agreed.concat (h : Agreed seen a) (hne : e.range ≠ a.range) : Agreed (seen ++ [e]) a := by
  intro x hx heq
  rcases List.mem_append.mp hx with hx | hx
  · exact h x hx heq
  · rw [List.mem_singleton.mp hx] at heq
    exact absurd heq hne

theorem Joined.concat (h : Joined seen a) (hne : e.range = a.range → e.text = a.text) :
    Joined (seen ++ [e]) a := by
  obtain ⟨key, hkey, value, hvalue, hkr, hvr, hkk, hvk, htext, hall⟩ := h
  refine ⟨key, List.mem_append_left _ hkey, value, List.mem_append_left _ hvalue, hkr, hvr, hkk,
    hvk, htext, fun x hx heq => ?_⟩
  rcases List.mem_append.mp hx with hx | hx
  · exact hall x hx heq
  · rw [List.mem_singleton.mp hx] at heq ⊢
    exact .inr (.inr (hne heq))

/-- A text stays that of its range if the next edit is on another one. -/
theorem Accepted.texts_concat (h : Accepted content seen done) (ha : a ∈ done)
    (hne : e.range ≠ a.range) :
    (a ∈ seen ++ [e] ∧ Agreed (seen ++ [e]) a) ∨ (a.kind = .plain ∧ Joined (seen ++ [e]) a) :=
  (h.texts a ha).imp (fun ⟨hmem, hagreed⟩ => ⟨List.mem_append_left _ hmem, hagreed.concat hne⟩)
    fun ⟨hkind, hjoined⟩ => ⟨hkind, hjoined.concat fun heq => absurd heq hne⟩

/-- The edit stands behind all that have been taken if it stands behind the last. -/
theorem Accepted.before_all (h : Accepted content seen done) (he : e.start ≤ e.stop)
    (hlast : ∀ prev ∈ done.head?, prev.range ≠ e.range ∧ prev.stop ≤ e.start) :
    ∀ a ∈ done, Before a e := by
  cases done with
  | nil => exact fun _ ha => nomatch ha
  | cons prev rest =>
    have hprev := (h.inBounds prev List.mem_cons_self).2.1
    obtain ⟨hne, hstop⟩ := hlast prev rfl
    have hbefore := before_of_range_ne hprev he hstop hne
    refine List.forall_mem_cons.mpr ⟨hbefore, fun a ha => ?_⟩
    exact ((List.pairwise_cons.mp h.before).1 a ha).trans hprev hbefore

/-- **Taking one more edit.** -/
theorem Accepted.step (h : Accepted content seen done)
    (haccept : accept file content done e = .ok done') : Accepted content (seen ++ [e]) done' := by
  obtain ⟨hbounds, hcases⟩ := accept_cases haccept
  rcases hcases with ⟨rfl, hlast⟩ | ⟨prev, rest, joined, rfl, hjoin, rfl⟩
  · -- The edit stands behind the others, so no edit seen before is on its range.
    have hbehind := h.before_all hbounds.2.1 hlast
    refine ⟨List.pairwise_cons.mpr ⟨hbehind, h.before⟩,
      List.forall_mem_cons.mpr ⟨hbounds, h.inBounds⟩, fun s => ?_,
      List.forall_mem_cons.mpr ⟨.inl ⟨List.mem_append_right _ (List.mem_singleton_self e), ?_⟩, ?_⟩⟩
    · rw [List.map_cons, List.mem_cons, h.ranges, List.map_append, List.mem_append,
        List.map_singleton, List.mem_singleton]
      exact or_comm
    · intro x hx heq
      rcases List.mem_append.mp hx with hx | hx
      · have hmem : e.range ∈ done.map range :=
          (h.ranges _).mpr (heq ▸ List.mem_map_of_mem hx)
        obtain ⟨a, ha, hrange⟩ := List.mem_map.mp hmem
        exact absurd hrange (hbehind a ha).range_ne
      · rw [List.mem_singleton.mp hx]
    · exact fun a ha => h.texts_concat ha (hbehind a ha).range_ne.symm
  · obtain ⟨hrange, hjoined⟩ := join?_cases hjoin
    obtain ⟨hfirst, hrest⟩ := List.pairwise_cons.mp h.before
    have hsame : joined.range = prev.range := by
      rcases hjoined with ⟨_, rfl⟩ | ⟨hsame, _⟩
      · rfl
      · exact hsame
    obtain ⟨hstart, hstop⟩ := Prod.mk.inj hsame
    have hprev := h.inBounds prev List.mem_cons_self
    refine ⟨List.pairwise_cons.mpr ⟨fun a ha => ?_, hrest⟩, List.forall_mem_cons.mpr ⟨?_, ?_⟩,
      fun s => ?_, List.forall_mem_cons.mpr ⟨?_, fun a ha => ?_⟩⟩
    · have hbefore := hfirst a ha
      unfold Before at hbefore ⊢
      rwa [hstart, hstop]
    · rwa [hstart, hstop]
    · exact fun a ha => h.inBounds a (List.mem_cons_of_mem _ ha)
    · have hold := h.ranges s
      rw [List.map_cons, List.mem_cons] at hold ⊢
      rw [hsame, hold, List.map_append, List.mem_append, List.map_singleton, List.mem_singleton,
        hrange]
      have hseen : s = prev.range → s ∈ seen.map range := fun hs =>
        hold.mp (.inl hs)
      tauto
    · rcases hjoined with ⟨htext, rfl⟩ | ⟨_, hplain, hkind, key, value, hpair, hkey, hvalue, htext⟩
      · refine (h.texts joined List.mem_cons_self).imp (fun ⟨hmem, hagreed⟩ => ?_)
          fun ⟨hkind, hold⟩ => ⟨hkind, hold.concat fun _ => htext⟩
        refine ⟨List.mem_append_left _ hmem, fun x hx heq => ?_⟩
        rcases List.mem_append.mp hx with hx | hx
        · exact hagreed x hx heq
        · rw [List.mem_singleton.mp hx]
          exact htext
      · -- Only an edit that has not been joined yet has the kind of a key or a value.
        obtain ⟨hmem, hagreed⟩ : prev ∈ seen ∧ Agreed seen prev :=
          (h.texts prev List.mem_cons_self).resolve_right fun hold => hkind hold.1
        have hprevMem : prev ∈ seen ++ [e] := List.mem_append_left _ hmem
        have heMem : e ∈ seen ++ [e] := List.mem_append_right _ (List.mem_singleton_self e)
        have hothers : ∀ x ∈ seen ++ [e], x.range = joined.range →
            x.text = prev.text ∨ x.text = e.text := by
          intro x hx heq
          rcases List.mem_append.mp hx with hx | hx
          · exact .inl (hagreed x hx (heq.trans hsame))
          · rw [List.mem_singleton.mp hx]
            exact .inr rfl
        refine .inr ⟨hplain, ?_⟩
        rcases hpair with ⟨rfl, rfl⟩ | ⟨rfl, rfl⟩
        · exact ⟨key, hprevMem, value, heMem, hsame.symm, hrange.trans hsame.symm, hkey, hvalue,
            htext, fun x hx heq => (hothers x hx heq).imp_right .inl⟩
        · exact ⟨key, heMem, value, hprevMem, hrange.trans hsame.symm, hsame.symm, hkey, hvalue,
            htext, fun x hx heq => (hothers x hx heq).symm.imp_right .inl⟩
    · refine h.texts_concat (List.mem_cons_of_mem _ ha) ?_
      rw [hrange]
      exact (hfirst a ha).range_ne.symm

/-- **Taking edits one after another.** -/
theorem Accepted.run (h : Accepted content seen done)
    (hfold : edits.foldlM (accept file content) done = .ok done') :
    Accepted content (seen ++ edits) done' := by
  induction edits generalizing seen done with
  | nil =>
    obtain rfl : done = done' := Except.ok.inj hfold
    rwa [List.append_nil]
  | cons e rest ih =>
    rw [List.foldlM_cons] at hfold
    cases hstep : accept file content done e with
    | error d =>
      rw [hstep] at hfold
      cases hfold
    | ok mid =>
      rw [hstep] at hfold
      have hrest := ih (h.step hstep) hfold
      rwa [List.append_assoc, List.singleton_append] at hrest

/-- The edits that a file is rewritten by, of those asked for. -/
structure Checked (content : ByteArray) (edits out : List Edit) : Prop where
  /-- They ascend by where they begin and then by where they end. -/
  ascending : out.Pairwise fun a b => a.start < b.start ∨ a.start = b.start ∧ a.stop < b.stop
  /-- None begins before the end of another that stands before it. -/
  apart : out.Pairwise fun a b => a.stop ≤ b.start
  inBounds : ∀ e ∈ out, 0 ≤ e.start ∧ e.start ≤ e.stop ∧ e.stop ≤ content.size
  /-- Their ranges are those asked for. -/
  ranges : ∀ s, s ∈ out.map range ↔ s ∈ edits.map range
  /-- Each range is there once. -/
  once : (out.map range).Nodup
  /-- The text on a range is that of all edits asked for there, or joins the new names of
  a shorthand key and its value. -/
  texts : ∀ e ∈ out, Agreed edits e ∨ Joined edits e

theorem Agreed.of_perm (h : Agreed seen e) (hperm : seen.Perm edits) : Agreed edits e :=
  fun x hx => h x (hperm.mem_iff.mpr hx)

theorem Joined.of_perm (h : Joined seen e) (hperm : seen.Perm edits) : Joined edits e := by
  obtain ⟨key, hkey, value, hvalue, hkr, hvr, hkk, hvk, htext, hall⟩ := h
  exact ⟨key, hperm.mem_iff.mp hkey, value, hperm.mem_iff.mp hvalue, hkr, hvr, hkk, hvk, htext,
    fun x hx => hall x (hperm.mem_iff.mpr hx)⟩

/-- **The checked edits** ascend, stay apart, and have each range asked for once. -/
theorem checked_normalize (h : normalize file content edits = .ok out) :
    Checked content edits out := by
  unfold normalize at h
  cases hfold : (edits.mergeSort le).foldlM (Edit.accept file content) [] with
  | error d =>
    rw [hfold] at h
    cases h
  | ok done =>
    rw [hfold] at h
    obtain rfl : done.reverse = out := Except.ok.inj h
    have hperm := List.mergeSort_perm edits le
    have hdone := Accepted.nil.run hfold
    rw [List.nil_append] at hdone
    have hbefore : done.reverse.Pairwise Before := List.pairwise_reverse.mpr hdone.before
    refine ⟨hbefore.imp And.right, hbefore.imp And.left, fun e he => ?_, fun s => ?_, ?_,
      fun e he => ?_⟩
    · exact hdone.inBounds e (List.mem_reverse.mp he)
    · rw [List.map_reverse, List.mem_reverse, hdone.ranges]
      exact (hperm.map range).mem_iff
    · exact List.pairwise_map.mpr (hbefore.imp Before.range_ne)
    · exact (hdone.texts e (List.mem_reverse.mp he)).imp (fun h => h.2.of_perm hperm)
        fun h => h.2.of_perm hperm

/-! ### Writing the edits -/

/-- The edits lie between two positions, in order. -/
structure Within (lo hi : Nat) (edits : List Edit) : Prop where
  le : lo ≤ hi
  apart : edits.Pairwise fun a b => a.stop ≤ b.start
  bounds : ∀ e ∈ edits, (lo : Int) ≤ e.start ∧ e.start ≤ e.stop ∧ e.stop ≤ hi

variable {rest : List Edit} {lo hi pos stop : Nat}

/-- The first edit lies before the others. -/
theorem Within.cons (h : Within lo hi (e :: rest)) :
    (e.start.toNat : Int) = e.start ∧ (e.stop.toNat : Int) = e.stop ∧ lo ≤ e.start.toNat ∧
      e.start.toNat ≤ e.stop.toNat ∧ Within e.stop.toNat hi rest := by
  obtain ⟨hfirst, hrest⟩ := List.pairwise_cons.mp h.apart
  obtain ⟨hbounds, hbounds'⟩ := List.forall_mem_cons.mp h.bounds
  have hstop : (e.stop.toNat : Int) = e.stop := Int.toNat_of_nonneg (by omega)
  refine ⟨Int.toNat_of_nonneg (by omega), hstop, by omega, by omega, by omega, hrest,
    fun a ha => ⟨?_, (hbounds' a ha).2⟩⟩
  rw [hstop]
  exact hfirst a ha

/-- The content between two positions with the texts of edits in place of their ranges:
gaps and texts from left to right. -/
def rendered (content : ByteArray) (stop : Nat) : Nat → List Edit → ByteArray
  | pos, [] => Text.slice content pos stop
  | pos, e :: rest =>
    Text.slice content pos e.start.toNat ++ Text.encode e.text
    ++ rendered content stop e.stop.toNat rest

/-- Edits between two positions leave the content before them alone. -/
theorem rendered_from (h : Within lo hi edits) (hpos : pos ≤ lo) (hhi : hi ≤ stop) :
    rendered content stop pos edits =
      Text.slice content pos lo ++ rendered content stop lo edits := by
  cases edits with
  | nil => exact (Text.slice_append_slice hpos (h.le.trans hhi)).symm
  | cons e rest =>
    obtain ⟨_, _, hstart, _, _⟩ := h.cons
    rw [rendered, rendered, ← Text.slice_append_slice hpos hstart]
    simp only [ByteArray.append_assoc]

/-- Edits between two positions leave the content behind them alone. -/
theorem rendered_to (h : Within lo hi edits) (hstop : hi ≤ stop) :
    rendered content stop lo edits =
      rendered content hi lo edits ++ Text.slice content hi stop := by
  induction edits generalizing lo with
  | nil => exact (Text.slice_append_slice h.le hstop).symm
  | cons e rest ih =>
    obtain ⟨_, _, _, _, hrest⟩ := h.cons
    rw [rendered, rendered, ih hrest]
    simp only [ByteArray.append_assoc]

/-- What edits grow together. -/
def totalGrowth : List Edit → Int
  | [] => 0
  | e :: edits => e.growth + totalGrowth edits

theorem foldl_growth (n : Int) (edits : List Edit) :
    (edits.map growth).foldl (· + ·) n = n + totalGrowth edits := by
  induction edits generalizing n with
  | nil => exact (Int.add_zero n).symm
  | cons e edits ih => rw [List.map_cons, List.foldl_cons, ih, totalGrowth, Int.add_assoc]

/-- Edits make the content between two positions longer by what they grow. -/
theorem size_rendered (h : Within lo hi edits) (hhi : hi ≤ content.size) :
    ((rendered content hi lo edits).size : Int) = hi - lo + totalGrowth edits := by
  induction edits generalizing lo with
  | nil =>
    have hle := h.le
    rw [rendered, Text.size_slice hhi, totalGrowth]
    omega
  | cons e rest ih =>
    obtain ⟨hstart, hstop, hlo, hle, hrest⟩ := h.cons
    have hsize : (Text.encode e.text).size = e.text.utf8ByteSize := rfl
    have hgap := @Text.size_slice content lo e.start.toNat (hle.trans (hrest.le.trans hhi))
    rw [rendered, ByteArray.size_append, ByteArray.size_append, hsize, hgap, Int.natCast_add,
      ih hrest, totalGrowth, growth]
    omega

/-- **Writing the last edit first is rendering in one pass.** -/
theorem splice_eq_rendered (h : Within pos content.size edits) :
    splice content edits = Text.slice content 0 pos ++ rendered content content.size pos edits := by
  induction edits generalizing pos with
  | nil =>
    rw [rendered, Text.slice_append_slice (Nat.zero_le _) h.le, Text.slice_all]
    rfl
  | cons e rest ih =>
    obtain ⟨_, _, hstart, hstop, hrest⟩ := h.cons
    -- Up to the end of this edit the content is still the old one.
    have hsize : (Text.slice content 0 e.stop.toNat).size = e.stop.toNat := by
      rw [Text.size_slice hrest.le, Nat.sub_zero]
    have hbefore : Text.slice (splice content rest) 0 e.start.toNat =
        Text.slice content 0 e.start.toNat := by
      rw [ih hrest, Text.slice_append_left (hstop.trans_eq hsize.symm), Text.slice, Text.slice,
        ByteArray.extract_extract, Nat.zero_add, Nat.zero_add, Nat.min_eq_left hstop, Text.slice]
    have hafter : Text.slice (splice content rest) e.stop.toNat (splice content rest).size =
        rendered content content.size e.stop.toNat rest := by
      have hright := @Text.slice_append_right (Text.slice content 0 e.stop.toNat)
        (rendered content content.size e.stop.toNat rest)
      rwa [← ih hrest, hsize] at hright
    calc splice content (e :: rest)
      _ = Text.slice content 0 e.start.toNat ++ Text.encode e.text
          ++ rendered content content.size e.stop.toNat rest := by
        rw [← hbefore, ← hafter]
        rfl
      _ = _ := by
        rw [rendered, ← Text.slice_append_slice (Nat.zero_le pos) hstart]
        simp only [ByteArray.append_assoc]

end Edit

/-! ### The changed region -/

open Edit (rendered totalGrowth)

/-- The changed region of a file that is rewritten: what the range from the first edit to
the last has become. -/
structure ChangedRegion (content : ByteArray) (out : List Edit) (first last : Edit)
    (r : FileResult) : Prop where
  start_eq : r.changedStart = first.start
  /-- The end moves by what the edits grow; it never had to be moved up to the start. -/
  stop_eq : r.changedEnd = last.stop + totalGrowth out
  ordered : 0 ≤ r.changedStart ∧ r.changedStart ≤ r.changedEnd ∧ r.changedEnd ≤ r.content.size
  /-- Before it stands what stood before the first edit. -/
  before : Text.slice r.content 0 r.changedStart.toNat = Text.slice content 0 first.start.toNat
  /-- In it stand the gaps and texts from the first edit to the last. -/
  image : Text.slice r.content r.changedStart.toNat r.changedEnd.toNat =
    rendered content last.stop.toNat first.start.toNat out
  /-- Behind it stands what stood behind the last edit. -/
  after : Text.slice r.content r.changedEnd.toNat r.content.size =
    Text.slice content last.stop.toNat content.size

/-- The file has all edits written into it at once. -/
structure Substitutes (content : ByteArray) (out : List Edit) (r : FileResult) : Prop where
  /-- The content is that of the gaps and the texts from left to right. -/
  content_eq : r.content = rendered content content.size 0 out
  edits_eq : r.edits = out.length
  region : ∀ first last, out.head? = some first → out.getLast? = some last →
    ChangedRegion content out first last r

variable {file path : String} {content : ByteArray} {edits out : List Edit}

namespace Edit.Checked

theorem within (h : Checked content edits out) : Within 0 content.size out :=
  ⟨Nat.zero_le _, h.apart, h.inBounds⟩

/-- The checked edits lie between the beginning of the first and the end of the last. -/
theorem within_range (h : Checked content edits out) {first last : Edit}
    (hfirst : out.head? = some first) (hlast : out.getLast? = some last) :
    Within first.start.toNat last.stop.toNat out := by
  have hstart : ∀ e ∈ out, first.start ≤ e.start := by
    obtain ⟨rest, rfl⟩ := List.head?_eq_some_iff.mp hfirst
    refine List.forall_mem_cons.mpr ⟨le_rfl, fun e he => ?_⟩
    exact (h.inBounds first List.mem_cons_self).2.1.trans ((List.pairwise_cons.mp h.apart).1 e he)
  have hstop : ∀ e ∈ out, e.stop ≤ last.stop := by
    obtain ⟨rest, rfl⟩ := List.getLast?_eq_some_iff.mp hlast
    intro e he
    rcases List.mem_append.mp he with he | he
    · refine ((List.pairwise_append.mp h.apart).2.2 e he last (List.mem_singleton_self _)).trans ?_
      exact (h.inBounds last (List.mem_append_right _ (List.mem_singleton_self _))).2.1
    · rw [List.mem_singleton.mp he]
  have hmem : first ∈ out := List.mem_of_head? hfirst
  have hbounds := h.inBounds first hmem
  have hle := hstop first hmem
  refine ⟨by omega, h.apart, fun e he => ?_⟩
  have hb := h.inBounds e he
  have hs := hstart e he
  have ht := hstop e he
  omega

end Edit.Checked

namespace FileResult

theorem content_ofEdits : (ofEdits path content out).content = Edit.splice content out := by
  cases out with
  | nil => rfl
  | cons e rest => rw [ofEdits, List.head?_cons, List.getLast?_cons]

theorem edits_ofEdits : (ofEdits path content out).edits = out.length := by
  cases out with
  | nil => rfl
  | cons e rest => rw [ofEdits, List.head?_cons, List.getLast?_cons]

/-- What stands where in three texts written one after another. -/
theorem region_of_append {a b c : ByteArray} {r : FileResult}
    (h : r.content = a ++ b ++ c) :
    Text.slice r.content 0 a.size = a ∧
      Text.slice r.content a.size (a.size + b.size) = b ∧
      Text.slice r.content (a.size + b.size) r.content.size = c := by
  rw [h]
  refine ⟨?_, Text.slice_append_middle, ?_⟩
  · rw [ByteArray.append_assoc, Text.slice_append_left le_rfl, Text.slice_all]
  · rw [← ByteArray.size_append]
    exact Text.slice_append_right

end FileResult

/-- The end of the changed region, before it is kept from lying ahead of the start. -/
theorem le_stop_add_growth (h : Edit.Checked content edits out) {first last : Edit}
    (hfirst : out.head? = some first) (hlast : out.getLast? = some last) :
    (first.start.toNat : Int) + (rendered content last.stop.toNat first.start.toNat out).size =
      last.stop + totalGrowth out := by
  have hbounds := h.inBounds last (List.mem_of_getLast? hlast)
  rw [Edit.size_rendered (h.within_range hfirst hlast) (by omega)]
  omega

/-- **The changed region is the image of the edits.** -/
theorem region_ofEdits (h : Edit.Checked content edits out) {first last : Edit}
    (hfirst : out.head? = some first) (hlast : out.getLast? = some last) :
    ChangedRegion content out first last (FileResult.ofEdits path content out) := by
  have hrange := h.within_range hfirst hlast
  have hstart := h.inBounds first (List.mem_of_head? hfirst)
  have hstop := h.inBounds last (List.mem_of_getLast? hlast)
  have hcontent : (FileResult.ofEdits path content out).content =
      Text.slice content 0 first.start.toNat ++
        rendered content last.stop.toNat first.start.toNat out ++
        Text.slice content last.stop.toNat content.size := by
    have hhi : last.stop.toNat ≤ content.size := by omega
    rw [FileResult.content_ofEdits, Edit.splice_eq_rendered h.within,
      Edit.rendered_from hrange (Nat.zero_le _) hhi, Edit.rendered_to hrange hhi,
      Text.slice_self, ByteArray.empty_append, ByteArray.append_assoc]
  obtain ⟨hbefore, himage, hafter⟩ := FileResult.region_of_append hcontent
  have hsum := le_stop_add_growth h hfirst hlast
  have hsize : (Text.slice content 0 first.start.toNat).size = first.start.toNat := by
    rw [Text.size_slice (by omega), Nat.sub_zero]
  have hstartEq : (FileResult.ofEdits path content out).changedStart = first.start := by
    rw [FileResult.ofEdits, hfirst, hlast]
  have hstopEq : (FileResult.ofEdits path content out).changedEnd =
      last.stop + totalGrowth out := by
    have hgrowth := Edit.foldl_growth 0 out
    rw [FileResult.ofEdits, hfirst, hlast, hgrowth, Int.zero_add]
    exact max_eq_left (by omega)
  have hend : (FileResult.ofEdits path content out).changedEnd.toNat = first.start.toNat +
      (rendered content last.stop.toNat first.start.toNat out).size := by
    omega
  rw [hsize] at hbefore himage hafter
  refine ⟨hstartEq, hstopEq, ?_, ?_, ?_, ?_⟩
  · rw [hcontent, ByteArray.size_append, ByteArray.size_append, hsize]
    omega
  · rw [hstartEq, hbefore]
  · rw [hstartEq, hend, himage]
  · rw [hend, hafter]

/-- Checked edits are written all at once. -/
theorem substitutes_ofEdits (h : Edit.Checked content edits out) :
    Substitutes content out (FileResult.ofEdits path content out) := by
  refine ⟨?_, FileResult.edits_ofEdits, fun first last => region_ofEdits h⟩
  rw [FileResult.content_ofEdits, Edit.splice_eq_rendered h.within, Text.slice_self,
    ByteArray.empty_append]

/-- Every file that renames rewrite has the checked edits asked for in it written all at
once. -/
theorem Rename.substitutes_of_mem_files {sources : String → Option ByteArray}
    {items : List RenameItem} {r : FileResult} (hr : r ∈ (Rename.apply sources items).files) :
    ∃ content out, sources r.path = some content ∧
      Edit.normalize r.path content (Rename.editsIn items r.path) = .ok out ∧
      Edit.Checked content (Rename.editsIn items r.path) out ∧ Substitutes content out r := by
  rw [Rename.files_apply] at hr
  obtain ⟨file, _, hrewrite⟩ := List.mem_filterMap.mp hr
  obtain rfl : r.path = file := Option.some.inj (Rename.path_of_rewrite? hrewrite)
  rw [Rename.rewrite?] at hrewrite
  obtain ⟨_, h⟩ | ⟨_, _, _, _, h⟩ | ⟨content, out, hsource, hout, h⟩ :=
    Rename.applyFile_cases sources items r.path
  · rw [h] at hrewrite
    cases hrewrite
  · rw [h] at hrewrite
    cases hrewrite
  · rw [h] at hrewrite
    have hchecked := Edit.checked_normalize hout
    have hr : FileResult.ofEdits r.path content out = r := Option.some.inj hrewrite
    exact ⟨content, out, hsource, hout, hchecked, hr ▸ substitutes_ofEdits hchecked⟩

/-- **Edits that pass the checks are written all at once.** -/
theorem substitutes_normalize (h : Edit.normalize file content edits = .ok out) (path : String) :
    Edit.Checked content edits out ∧
      Substitutes content out (FileResult.ofEdits path content out) :=
  ⟨Edit.checked_normalize h, substitutes_ofEdits (Edit.checked_normalize h)⟩

/-- Both sides of a shorthand property, and a name before it, asked for from the back. -/
def bothSides : List Edit :=
  [{ start := 6, stop := 7, text := "y: v", kind := .shorthandValue, target := "v", oldName := "y" },
    { start := 6, stop := 7, text := "k: y", kind := .shorthandKey, target := "k", oldName := "y" },
    { start := 0, stop := 1, text := "near", target := "near", oldName := "a" }]

theorem substitutes_normalize_bothSides : ∃ out,
    Edit.normalize "main.ts" "a = (\x7by\x7d)".toUTF8 bothSides = .ok out ∧
      Edit.Checked "a = (\x7by\x7d)".toUTF8 bothSides out ∧
      Substitutes "a = (\x7by\x7d)".toUTF8 out
        (FileResult.ofEdits "main.ts" "a = (\x7by\x7d)".toUTF8 out) := by
  have hsort : bothSides.mergeSort Edit.le = bothSides.drop 2 ++ bothSides.take 2 := by
    simp [bothSides, List.mergeSort, Edit.le]
  have h : Edit.normalize "main.ts" "a = (\x7by\x7d)".toUTF8 bothSides = .ok
      [{ start := 0, stop := 1, text := "near", target := "near", oldName := "a" },
        { start := 6, stop := 7, text := "k: v" }] := by
    rw [Edit.normalize, hsort]
    rfl
  exact ⟨_, h, substitutes_normalize h "main.ts"⟩

end Moniker
