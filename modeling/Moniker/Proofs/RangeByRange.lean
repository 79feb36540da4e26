/-
# Edits are decided range by range

`Edit.normalize` takes the edits of a file in order, each next to the last one taken.
Read range by range it is simpler: every edit has to fit the file, the edits of one
range are joined one after another in the order they are asked for (`joinAll?`), and
the ranges have to stay apart.  `normalize_eq_ok_iff` says that nothing else decides
whether the edits pass, or what comes out.

Sorting does not change the order of the edits of one range (`onRange_mergeSort`), so
no sorted list appears in `Resolved`.
-/

import Moniker.Proofs.Substitution
import Mathlib.Data.List.Pairwise

namespace Moniker
namespace Edit

variable {file : String} {content : ByteArray} {a b e o o' prev joined : Edit}
  {edits edits' out out' seen done done' group rest : List Edit} {r : Int × Int}

/-! ### The order of edits -/

protected theorem le_trans (a b c : Edit) (hab : le a b = true) (hbc : le b c = true) : le a c = true := by
  simp only [le, Bool.or_eq_true, Bool.and_eq_true, decide_eq_true_iff, beq_iff_eq] at *
  omega

protected theorem le_total (a b : Edit) : (le a b || le b a) = true := by
  simp only [le, Bool.or_eq_true, Bool.and_eq_true, decide_eq_true_iff, beq_iff_eq]
  omega

theorem le_of_range_eq (h : a.range = b.range) : le a b = true := by
  obtain ⟨hstart, hstop⟩ := Prod.mk.inj h
  simp [le, hstart, hstop]

/-- An edit that stands behind another does not come first. -/
theorem Before.not_le (h : Before a b) : ¬ le b a = true := by
  simp only [le, Bool.or_eq_true, Bool.and_eq_true, decide_eq_true_iff, beq_iff_eq]
  unfold Before at h
  omega

/-! ### The edits of one range -/

/-- The edits on a range, in the order they are asked for. -/
def onRange (edits : List Edit) (r : Int × Int) : List Edit := edits.filter fun e => e.range == r

theorem mem_onRange : e ∈ onRange edits r ↔ e ∈ edits ∧ e.range = r := by
  rw [onRange, List.mem_filter, beq_iff_eq]

theorem onRange_append (edits edits' : List Edit) (r : Int × Int) :
    onRange (edits ++ edits') r = onRange edits r ++ onRange edits' r :=
  List.filter_append edits edits'

theorem onRange_cons_self (e : Edit) (edits : List Edit) :
    onRange (e :: edits) e.range = e :: onRange edits e.range :=
  List.filter_cons_of_pos (beq_self_eq_true _)

theorem onRange_eq_nil (h : ∀ e ∈ edits, e.range ≠ r) : onRange edits r = [] :=
  List.filter_eq_nil_iff.mpr fun e he => by simpa using h e he

theorem onRange_of_forall (h : ∀ e ∈ edits, e.range = r) : onRange edits r = edits :=
  List.filter_eq_self.mpr fun e he => beq_iff_eq.mpr (h e he)

/-- **Sorting leaves the edits of a range in the order they are asked for.** -/
theorem onRange_mergeSort (edits : List Edit) (r : Int × Int) :
    onRange (edits.mergeSort le) r = onRange edits r := by
  have hsorted : (onRange edits r).Pairwise fun a b => le a b = true :=
    List.pairwise_of_forall_mem_list fun a ha b hb =>
      le_of_range_eq ((mem_onRange.mp ha).2.trans (mem_onRange.mp hb).2.symm)
  have hsub : (onRange edits r).Sublist (edits.mergeSort le) :=
    List.sublist_mergeSort Edit.le_trans Edit.le_total hsorted List.filter_sublist
  have hsub' : (onRange edits r).Sublist (onRange (edits.mergeSort le) r) := by
    have h := hsub.filter fun e => e.range == r
    rwa [← onRange, ← onRange, onRange_of_forall fun e he => (mem_onRange.mp he).2] at h
  have hperm : (onRange (edits.mergeSort le) r).Perm (onRange edits r) :=
    (List.mergeSort_perm edits le).filter _
  exact (hsub'.eq_of_length hperm.length_eq.symm).symm

/-- What edits of one range become, joined one after another. -/
def joinAll? : List Edit → Option Edit
  | [] => none
  | e :: rest => rest.foldlM join? e

theorem joinAll?_append (h : group ≠ []) (rest : List Edit) :
    joinAll? (group ++ rest) = (joinAll? group).bind fun o => rest.foldlM join? o := by
  obtain ⟨e, group, rfl⟩ := List.exists_cons_of_ne_nil h
  exact List.foldlM_append

theorem ne_nil_of_joinAll? (h : joinAll? group = some o) : group ≠ [] := by
  rintro rfl
  cases h

theorem range_of_join? (h : join? prev e = some joined) : joined.range = prev.range := by
  obtain ⟨-, ⟨-, rfl⟩ | ⟨hrange, -⟩⟩ := join?_cases h
  · rfl
  · exact hrange

theorem range_of_foldlM_join? (h : rest.foldlM join? e = some o) : o.range = e.range := by
  induction rest generalizing e with
  | nil => exact (congrArg range (Option.some.inj h)).symm
  | cons x rest ih =>
    rw [List.foldlM_cons] at h
    obtain ⟨joined, hjoin, hrest⟩ := Option.bind_eq_some_iff.mp h
    exact (ih hrest).trans (range_of_join? hjoin)

theorem range_of_joinAll? (hgroup : ∀ x ∈ group, x.range = r) (h : joinAll? group = some o) :
    o.range = r := by
  obtain ⟨e, rest, rfl⟩ := List.exists_cons_of_ne_nil (ne_nil_of_joinAll? h)
  exact (range_of_foldlM_join? h).trans (hgroup e List.mem_cons_self)

/-! ### What comes out -/

/-- Does an edit lie in the file, on the name it is to replace? -/
def Fits (content : ByteArray) (e : Edit) : Prop :=
  e.inBounds content.size = true ∧ e.isStale content = false

/-- What edits come to, range by range. -/
structure Resolved (content : ByteArray) (edits out : List Edit) : Prop where
  fits : ∀ e ∈ edits, Fits content e
  apart : out.Pairwise Before
  joined : ∀ o ∈ out, joinAll? (onRange edits o.range) = some o
  covers : ∀ e ∈ edits, ∃ o ∈ out, o.range = e.range

theorem fits_of_accept (h : accept file content done e = .ok done') : Fits content e := by
  unfold accept at h
  split at h
  · cases h
  next hbounds =>
  split at h
  · cases h
  next hstale => exact ⟨by simpa using hbounds, by simpa using hstale⟩

/-- Taking one more edit joins it to those of its range. -/
theorem joined_accept (hseen : Accepted content seen done)
    (hjoined : ∀ o ∈ done, joinAll? (onRange seen o.range) = some o)
    (h : accept file content done e = .ok done') :
    ∀ o ∈ done', joinAll? (onRange (seen ++ [e]) o.range) = some o := by
  have hother : ∀ o ∈ done, o.range ≠ e.range →
      joinAll? (onRange (seen ++ [e]) o.range) = some o := by
    intro o ho hne
    have hnone : onRange [e] o.range = [] :=
      onRange_eq_nil fun x hx => by rw [List.mem_singleton.mp hx]; exact hne.symm
    rw [onRange_append, hnone, List.append_nil]
    exact hjoined o ho
  obtain ⟨hbounds, ⟨rfl, hlast⟩ | ⟨prev, rest, joined, rfl, hjoin, rfl⟩⟩ := accept_cases h
  · have hbehind := hseen.before_all hbounds.2.1 hlast
    refine List.forall_mem_cons.mpr ⟨?_, fun o ho => hother o ho (hbehind o ho).range_ne⟩
    have hnone : onRange seen e.range = [] := by
      refine onRange_eq_nil fun x hx heq => ?_
      obtain ⟨o, ho, hrange⟩ :=
        List.mem_map.mp ((hseen.ranges e.range).mpr (heq ▸ List.mem_map_of_mem hx))
      exact (hbehind o ho).range_ne hrange
    rw [onRange_append, hnone, onRange_cons_self]
    rfl
  · have hrange : e.range = prev.range := (join?_cases hjoin).1
    have hfirst := (List.pairwise_cons.mp hseen.before).1
    refine List.forall_mem_cons.mpr ⟨?_, fun o ho => ?_⟩
    · have hprev := hjoined prev List.mem_cons_self
      rw [range_of_join? hjoin, onRange_append, ← hrange, onRange_cons_self,
        joinAll?_append (ne_nil_of_joinAll? (hrange ▸ hprev)), hrange, hprev, Option.bind_some,
        List.foldlM_cons, hjoin]
      rfl
    · exact hother o (List.mem_cons_of_mem _ ho) (hrange ▸ (hfirst o ho).range_ne)

/-- Taking edits one after another. -/
theorem joined_run (hseen : Accepted content seen done) (hfits : ∀ e ∈ seen, Fits content e)
    (hjoined : ∀ o ∈ done, joinAll? (onRange seen o.range) = some o)
    (h : edits.foldlM (accept file content) done = .ok done') :
    (∀ e ∈ seen ++ edits, Fits content e) ∧
      ∀ o ∈ done', joinAll? (onRange (seen ++ edits) o.range) = some o := by
  induction edits generalizing seen done with
  | nil =>
    obtain rfl : done = done' := Except.ok.inj h
    rw [List.append_nil]
    exact ⟨hfits, hjoined⟩
  | cons e rest ih =>
    rw [List.foldlM_cons] at h
    cases hstep : accept file content done e with
    | error d =>
      rw [hstep] at h
      cases h
    | ok mid =>
      rw [hstep] at h
      have hfits' : ∀ x ∈ seen ++ [e], Fits content x :=
        List.forall_mem_append.mpr
          ⟨hfits, List.forall_mem_singleton.mpr (fits_of_accept hstep)⟩
      have hrest := ih (hseen.step hstep) hfits' (joined_accept hseen hjoined hstep) h
      rwa [List.append_assoc, List.singleton_append] at hrest

theorem resolved_of_normalize (h : normalize file content edits = .ok out) :
    Resolved content edits out := by
  have hchecked := checked_normalize h
  unfold normalize at h
  cases hfold : (edits.mergeSort le).foldlM (accept file content) [] with
  | error d =>
    rw [hfold] at h
    cases h
  | ok done =>
    rw [hfold] at h
    obtain rfl : done.reverse = out := Except.ok.inj h
    obtain ⟨hfits, hjoined⟩ := joined_run .nil (fun _ h => nomatch h) (fun _ h => nomatch h) hfold
    refine ⟨fun e he => hfits e (List.mem_mergeSort.mpr he),
      hchecked.apart.and hchecked.ascending, fun o ho => ?_, fun e he => ?_⟩
    · have := hjoined o (List.mem_reverse.mp ho)
      rwa [List.nil_append, onRange_mergeSort] at this
    · exact List.mem_map.mp ((hchecked.ranges e.range).mpr (List.mem_map_of_mem he))

/-! ### Nothing else is refused -/

/-- An edit is refused because it does not fit, or because it cannot be joined to the
last one and does not stand behind it. -/
theorem accept_refused {d : Diagnostic} (h : accept file content done e = .error d) :
    ¬ Fits content e ∨ ∃ prev rest, done = prev :: rest ∧ join? prev e = none ∧
      (e.range = prev.range ∨ e.start < prev.stop) := by
  unfold accept at h
  split at h
  · next hbounds => exact .inl fun hfits => by simp [hfits.1] at hbounds
  split at h
  · next hstale => exact .inl fun hfits => by simp [hfits.2] at hstale
  split at h
  · cases h
  next prev rest =>
  split at h
  · cases h
  next hjoin =>
  split at h
  · next hclash =>
    exact .inr ⟨prev, rest, rfl, hjoin, hclash.imp_left fun ⟨hs, ht⟩ => Prod.ext hs ht⟩
  · cases h

/-- A run that fails takes some edits and refuses the next. -/
theorem exists_refused {d : Diagnostic}
    (h : edits.foldlM (accept file content) done = .error d) :
    ∃ seen e rest done', edits = seen ++ e :: rest ∧
      seen.foldlM (accept file content) done = .ok done' ∧
      accept file content done' e = .error d := by
  induction edits generalizing done with
  | nil => cases h
  | cons x edits ih =>
    rw [List.foldlM_cons] at h
    cases hstep : accept file content done x with
    | error d' =>
      rw [hstep] at h
      obtain rfl : d' = d := Except.error.inj h
      exact ⟨[], x, edits, done, rfl, rfl, hstep⟩
    | ok mid =>
      rw [hstep] at h
      obtain ⟨seen, e, rest, done', rfl, hseen, hrefused⟩ := ih h
      refine ⟨x :: seen, e, rest, done', rfl, ?_, hrefused⟩
      rw [List.foldlM_cons, hstep]
      exact hseen

/-- Of two edits that are apart one stands behind the other. -/
theorem before_or_before (h : out.Pairwise Before) (ho : o ∈ out) (ho' : o' ∈ out)
    (hne : o ≠ o') : Before o o' ∨ Before o' o := by
  have : Std.Symm fun a b : Edit => Before a b ∨ Before b a := ⟨fun _ _ h => h.symm⟩
  have heither : out.Pairwise fun a b => Before a b ∨ Before b a := h.imp Or.inl
  exact heither.forall ho ho' hne

/-- Edits that come to something range by range are not refused. -/
theorem normalize_ne_error (h : Resolved content edits out) {d : Diagnostic} :
    normalize file content edits ≠ .error d := by
  intro herror
  unfold normalize at herror
  cases hfold : (edits.mergeSort le).foldlM (accept file content) [] with
  | ok done =>
    rw [hfold] at herror
    cases herror
  | error d' =>
    obtain ⟨seen, e, rest, done, hsplit, hseen, hrefused⟩ := exists_refused hfold
    have hmem : ∀ {x}, x ∈ seen ++ e :: rest → x ∈ edits := fun hx =>
      List.mem_mergeSort.mp (hsplit ▸ hx)
    have he : e ∈ edits := hmem (by simp)
    obtain hfits | ⟨prev, rest', rfl, hjoin, hclash⟩ := accept_refused hrefused
    · exact hfits (h.fits e he)
    have haccepted := Accepted.nil.run hseen
    rw [List.nil_append] at haccepted
    -- An edit seen before has the range of the last one taken.
    obtain ⟨x, hx, hxrange⟩ :=
      List.mem_map.mp ((haccepted.ranges prev.range).mp (by simp))
    obtain ⟨o, ho, hoprev⟩ := h.covers x (hmem (List.mem_append_left _ hx))
    obtain ⟨o', ho', hoe⟩ := h.covers e he
    rw [hxrange] at hoprev
    by_cases hrange : e.range = prev.range
    · have hgroup : onRange edits prev.range =
          onRange seen prev.range ++ e :: onRange rest prev.range := by
        rw [← onRange_mergeSort, hsplit, onRange_append, ← hrange, onRange_cons_self]
      have hprev := (joined_run .nil (fun _ h => nomatch h) (fun _ h => nomatch h) hseen).2 prev
        List.mem_cons_self
      rw [List.nil_append] at hprev
      have hout := h.joined o ho
      rw [hoprev, hgroup, joinAll?_append (ne_nil_of_joinAll? hprev), hprev, Option.bind_some,
        List.foldlM_cons, hjoin] at hout
      cases hout
    · have hstop := hclash.resolve_left hrange
      have hle : le x e = true := by
        have hpairwise := List.pairwise_mergeSort Edit.le_trans Edit.le_total edits
        rw [hsplit] at hpairwise
        exact (List.pairwise_append.mp hpairwise).2.2 x hx e List.mem_cons_self
      have hne : o ≠ o' := fun heq => hrange (by rw [← hoe, ← heq, hoprev])
      obtain ⟨hxs, hxt⟩ := Prod.mk.inj hxrange
      obtain ⟨hos, hot⟩ := Prod.mk.inj hoprev
      obtain ⟨hes, het⟩ := Prod.mk.inj hoe
      simp only [le, Bool.or_eq_true, Bool.and_eq_true, decide_eq_true_iff, beq_iff_eq] at hle
      -- Whichever of the two stands behind, the edit was refused for nothing.
      have hapart := before_or_before h.apart ho ho' hne
      unfold Before at hapart
      omega

/-- What edits come to is determined. -/
theorem Resolved.unique (h : Resolved content edits out) (h' : Resolved content edits out') :
    out = out' := by
  have hsub : ∀ {xs ys : List Edit}, Resolved content edits xs → Resolved content edits ys →
      ∀ o ∈ xs, o ∈ ys := by
    intro xs ys hx hy o ho
    obtain ⟨e, he⟩ := List.exists_mem_of_ne_nil _ (ne_nil_of_joinAll? (hx.joined o ho))
    obtain ⟨hmem, hrange⟩ := mem_onRange.mp he
    obtain ⟨o', ho', hrange'⟩ := hy.covers e hmem
    have hjoined := hy.joined o' ho'
    rw [hrange', hrange, hx.joined o ho] at hjoined
    rwa [Option.some.inj hjoined]
  have hnodup : ∀ {xs : List Edit}, xs.Pairwise Before → xs.Nodup := fun hx =>
    hx.imp fun hab heq => hab.range_ne (congrArg range heq)
  have hperm : out.Perm out' := (List.perm_ext_iff_of_nodup (hnodup h.apart) (hnodup h'.apart)).mpr
    fun o => ⟨hsub h h' o, hsub h' h o⟩
  refine hperm.eq_of_pairwise (fun a b _ _ hab hba => ?_) h.apart h'.apart
  unfold Before at hab hba
  omega

/-- **Edits are decided range by range.** -/
theorem normalize_eq_ok_iff :
    normalize file content edits = .ok out ↔ Resolved content edits out := by
  refine ⟨resolved_of_normalize, fun h => ?_⟩
  cases hout : normalize file content edits with
  | error d => exact absurd hout (normalize_ne_error h)
  | ok out' => rw [h.unique (resolved_of_normalize hout)]

end Edit
end Moniker
