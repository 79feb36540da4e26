/-
# Edits that get along

Edits of a file get along if they are apart, or write the key and the value of one shorthand
property (`Edit.Compatible`).  If all edits of a file fit it and get along pairwise, none is
refused (`Edit.exists_normalize`).  At most two of them are on one range: a third would have to
be both key and value.

So renames of locations that fit their files and are without conflict rewrite every file they
have a place in, and nothing is reported of them (`Rename.Feasible`).
-/

import Moniker.Proofs.Reordering

namespace Moniker

/-- One writes a shorthand property as the key, the other as the value. -/
def LocationKind.Complements (a b : LocationKind) : Prop :=
  a = .shorthandKey ∧ b = .shorthandValue ∨ a = .shorthandValue ∧ b = .shorthandKey

theorem LocationKind.Complements.symm {a b : LocationKind} (h : a.Complements b) : b.Complements a :=
  Or.symm (Or.imp And.symm And.symm h)

namespace Location

/-- One location ends where the other begins or before that, and begins before it. -/
def Before (a b : Location) : Prop := a.stop ≤ b.start ∧ a.start < b.start

/-- In one file the locations are apart, or are the two sides of a shorthand property. -/
def Compatible (a b : Location) : Prop :=
  a.file = b.file → a.Before b ∨ b.Before a ∨
    a.start = b.start ∧ a.stop = b.stop ∧ a.kind.Complements b.kind

end Location

namespace Edit

variable {file : String} {content : ByteArray} {a b e prev : Edit} {edits seen done : List Edit}

/-- The edits are apart, or are the two sides of a shorthand property. -/
def Compatible (a b : Edit) : Prop :=
  Before a b ∨ Before b a ∨ a.range = b.range ∧ a.kind.Complements b.kind

theorem Compatible.symm (h : Compatible a b) : Compatible b a := by
  rcases h with h | h | ⟨hrange, hkind⟩
  · exact .inr (.inl h)
  · exact .inl h
  · exact .inr (.inr ⟨hrange.symm, hkind.symm⟩)

/-- An edit in the file of the name that stands there fits the file. -/
theorem fits_of_replaced (hstart : 0 ≤ e.start) (hle : e.start ≤ e.stop)
    (hstop : e.stop ≤ content.size)
    (h : e.kind ≠ .stringKey → e.replaced content = Text.encode e.oldName) : Fits content e := by
  refine ⟨by simp [inBounds, hstart, hle, hstop], ?_⟩
  by_cases hkind : e.kind = .stringKey
  · simp [isStale, hkind]
  · have hsame : (e.replaced content != Text.encode e.oldName) = false := by
      rw [h hkind]
      exact congrArg not (beq_self_eq_true (Text.encode e.oldName).data)
    rw [isStale, hsame, Bool.and_false]

/-- Names are put without conflict where the locations are without conflict. -/
theorem compatible_ofLocation {i j : RenameItem} {l l' : Location} (h : l.Compatible l')
    (hfile : l.file = l'.file) : Compatible (ofLocation i l) (ofLocation j l') := by
  rcases h hfile with h | h | ⟨hstart, hstop, hkind⟩
  · exact .inl ⟨h.1, .inl h.2⟩
  · exact .inr (.inl ⟨h.1, .inl h.2⟩)
  · exact .inr (.inr ⟨Prod.ext hstart hstop, hkind⟩)

theorem isSome_join? (hrange : e.range = prev.range) (hkind : prev.kind.Complements e.kind) :
    (join? prev e).isSome = true := by
  unfold join?
  rw [if_pos (Prod.mk.inj hrange)]
  split
  · rfl
  · rcases hkind with ⟨hprev, he⟩ | ⟨hprev, he⟩ <;> simp [mergeShorthand?, hprev, he]

/-- An edit that runs into an earlier one it gets along with is on its range. -/
theorem Compatible.same_range (h : Compatible a e) (hle : le a e = true)
    (hclash : e.range = a.range ∨ e.start < a.stop) :
    e.range = a.range ∧ a.kind.Complements e.kind := by
  rcases h with hbefore | hbehind | ⟨hrange, hkind⟩
  · rcases hclash with hrange | hlt
    · exact absurd hrange.symm hbefore.range_ne
    · exact absurd hlt (not_lt.mpr hbefore.1)
  · exact absurd hle hbehind.not_le
  · exact ⟨hrange.symm, hkind⟩

/-- Edits in order that fit the file and get along are taken. -/
theorem accept_ne_error (hseen : Accepted content seen done) (hfits : Fits content e)
    (hsorted : ∀ a ∈ seen, le a e = true) (h : ∀ a ∈ seen, Compatible a e) {d : Diagnostic} :
    accept file content done e ≠ .error d := by
  intro herror
  obtain hunfit | ⟨prev, rest, rfl, hjoin, hclash⟩ := accept_refused herror
  · exact hunfit hfits
  have hside : ∀ a ∈ seen, a.range = prev.range → e.range = a.range ∧ a.kind.Complements e.kind := by
    intro a ha hrange
    refine (h a ha).same_range (hsorted a ha) (hclash.imp (·.trans hrange.symm) fun hlt => ?_)
    exact hlt.trans_eq (Prod.mk.inj hrange).2.symm
  rcases hseen.texts prev List.mem_cons_self with ⟨hprev, -⟩ | ⟨-, hjoined⟩
  · obtain ⟨hrange, hkind⟩ := hside prev hprev rfl
    have hsome := isSome_join? hrange hkind
    rw [hjoin] at hsome
    cases hsome
  · -- The two sides have been joined, so there is no side left for a third edit.
    obtain ⟨key, hkey, value, hvalue, hkr, hvr, hkk, hvk, -⟩ := hjoined
    have hk := (hside key hkey hkr).2
    have hv := (hside value hvalue hvr).2
    rw [hkk] at hk
    rw [hvk] at hv
    rcases hk with ⟨-, hk⟩ | ⟨hk, -⟩
    · rw [hk] at hv
      rcases hv with ⟨hv, -⟩ | ⟨-, hv⟩ <;> cases hv
    · cases hk

/-- **Edits that fit the file and get along are not refused.** -/
theorem exists_normalize (hfits : ∀ e ∈ edits, Fits content e) (h : edits.Pairwise Compatible) :
    ∃ out, normalize file content edits = .ok out := by
  cases hfold : (edits.mergeSort le).foldlM (accept file content) [] with
  | ok done =>
    rw [normalize, hfold]
    exact ⟨_, rfl⟩
  | error d =>
    obtain ⟨seen, e, rest, done, hsplit, hseen, hrefused⟩ := exists_refused hfold
    have hperm := List.mergeSort_perm edits le
    have hcompatible := hperm.symm.pairwise h fun h => h.symm
    have hpairwise := List.pairwise_mergeSort Edit.le_trans Edit.le_total edits
    rw [hsplit] at hperm hcompatible hpairwise
    have haccepted := Accepted.nil.run hseen
    rw [List.nil_append] at haccepted
    refine absurd hrefused (accept_ne_error haccepted (hfits e (hperm.mem_iff.mp (by simp)))
      (fun a ha => ?_) fun a ha => ?_)
    · exact (List.pairwise_append.mp hpairwise).2.2 a ha e List.mem_cons_self
    · exact (List.pairwise_append.mp hcompatible).2.2 a ha e List.mem_cons_self

end Edit

namespace Rename

variable {sources : String → Option ByteArray} {items : List RenameItem} {file : String}
  {locate : Locator}

/-- Renames that can be carried out: there are sources to write to, and no location conflicts with
another. -/
structure Feasible (sources : String → Option ByteArray) (items : List RenameItem) : Prop where
  /-- Every location lies in its file, on the name it is to replace. -/
  fits : ∀ i ∈ items, ∀ l ∈ i.locations, ∃ content, sources l.file = some content ∧
    Edit.Fits content (.ofLocation i l)
  /-- The locations of one rename are without conflict. -/
  within : ∀ i ∈ items, i.locations.Pairwise Location.Compatible
  /-- So are those of two renames. -/
  across : items.Pairwise fun i j => ∀ l ∈ i.locations, ∀ l' ∈ j.locations, l.Compatible l'

/-- Locations without conflict make edits without conflict. -/
theorem Feasible.pairwise_editsIn (h : Feasible sources items) (file : String) :
    (editsIn items file).Pairwise Edit.Compatible := by
  rw [editsIn, List.pairwise_map, List.pairwise_filter, editsOf, List.pairwise_flatMap]
  have hfiles {l l' : Location} (h : (l.file == file) = true) (h' : (l'.file == file) = true) :
      l.file = l'.file := (eq_of_beq h).trans (eq_of_beq h').symm
  refine ⟨fun i hi => ?_, (h.across.filter _).imp fun hij x hx y hy hxf hyf => ?_⟩
  · rw [List.pairwise_map]
    exact (h.within i (List.mem_filter.mp hi).1).imp fun h hl hl' =>
      Edit.compatible_ofLocation h (hfiles hl hl')
  · obtain ⟨l, hl, rfl⟩ := List.mem_map.mp hx
    obtain ⟨l', hl', rfl⟩ := List.mem_map.mp hy
    exact Edit.compatible_ofLocation (hij l hl l' hl') (hfiles hxf hyf)

/-- **Renames that can be carried out rewrite every file they have a place in.** -/
theorem Feasible.rewritten (h : Feasible sources items) (ht : Touches items file) :
    Rewritten sources items (apply sources items) file := by
  obtain ⟨i, hi, -, l, hl, hfile⟩ := id ht
  obtain ⟨content, hsource, -⟩ := h.fits i hi l hl
  rw [hfile] at hsource
  have hfits : ∀ e ∈ editsIn items file, Edit.Fits content e := by
    intro e he
    obtain ⟨j, hj, -, l', hl', hfile', rfl⟩ := mem_editsIn.mp he
    obtain ⟨content', hsource', hfits'⟩ := h.fits j hj l' hl'
    rw [hfile', hsource] at hsource'
    exact Option.some.inj hsource' ▸ hfits'
  obtain ⟨out, hout⟩ : ∃ out, Edit.normalize file content (editsIn items file) = .ok out :=
    Edit.exists_normalize hfits (h.pairwise_editsIn file)
  refine (rewritten_or_refused ht).resolve_right fun ⟨_, d, _, hrefused⟩ => ?_
  rcases hrefused with ⟨hnone, -⟩ | ⟨content', hsource', herror, -⟩
  · cases hsource.symm.trans hnone
  · obtain rfl := Option.some.inj (hsource.symm.trans hsource')
    cases hout.symm.trans herror

/-- **Nothing is reported of renames that can be carried out.** -/
theorem Feasible.diagnostics_eq_nil (h : Feasible sources items) :
    (apply sources items).diagnostics = [] := by
  refine List.eq_nil_iff_forall_not_mem.mpr fun d hd => ?_
  have hreported := hd
  rw [diagnostics_apply] at hreported
  obtain ⟨file, hfile, hreport⟩ := List.mem_filterMap.mp hreported
  obtain ⟨_, _, _, _, _, hnone⟩ := h.rewritten (mem_paths.mp hfile)
  have hmem : d ∈ (apply sources items).diagnosticsAt file :=
    List.mem_filter.mpr ⟨hd, beq_iff_eq.mpr (place_of_report? hreport)⟩
  rw [hnone] at hmem
  exact nomatch hmem

/-- **Directives that are all found come to their renames,** and none is dropped. -/
theorem run_of_found {α : Type} {directive : α → Directive} {item : α → RenameItem} {xs : List α}
    (h : ∀ x ∈ xs, resolveOne locate (directive x) = .ok (item x)) :
    run sources locate (xs.map directive) = apply sources (xs.map item) := by
  have hresolve : resolve locate (xs.map directive) = (xs.map item, []) := by
    have hone : (xs.map directive).map (resolveOne locate) = xs.map fun x => .ok (item x) := by
      rw [List.map_map]
      exact List.map_congr_left h
    unfold resolve
    rw [hone]
    simp [List.filterMap_map, Function.comp_def, Except.toOption]
  rw [run, hresolve]
  rfl

end Rename
end Moniker
