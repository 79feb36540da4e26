/-
# Following paths without links

The names gone so far, the steps up that were kept among them, have a clean form, and each
segment that is followed changes that clean form as it changes the clean form of a path
(`Path.stack_of_arrived`).  So without links a path leads to its own clean form, if it leads
anywhere (`FileSystem.eq_clean_of_follow`).

On the way along a clean path each name is looked at once, from the top.  What is in
the way is the first that is no directory, unless nothing is there or the path ends with it
(`FileSystem.obstacle?_render_iff`).
-/

import Moniker.Path.Follow
import Moniker.Proofs.Paths

namespace Moniker

variable {fs : FileSystem} {p q why target : String} {e : Path.FollowError}
  {rooted : Bool} {done done' rest segs P R : List String}

/-- Nothing on the disk is a link. -/
def FileSystem.NoLinks (fs : FileSystem) : Prop := ∀ p target, fs.stat p ≠ .link target

theorem FileSystem.noLinks_ofStat {stat : String → Stat} (h : ∀ p target, stat p ≠ .link target) :
    (ofStat stat).NoLinks := by
  intro p target
  unfold ofStat
  dsimp only
  split
  · exact nofun
  · exact h p target

theorem FileSystem.noLinks_empty : empty.NoLinks := noLinks_ofStat fun _ _ => nofun

namespace Path

/-! ### Going on -/

theorem goOn_ne_linked (hfs : fs.NoLinks) :
    goOn fs rooted done segs ≠ .linked target done' rest := by
  fun_induction goOn fs rooted done segs with
  | case1 => exact nofun
  | case2 done segment rest h ih => exact ih
  | case3 done rest h ih => exact ih
  | case4 => exact nofun
  | case5 => exact nofun
  | case6 done segment rest h hup path target hstat => exact absurd hstat (hfs _ _)
  | case7 => exact nofun
  | case8 => exact nofun
  | case9 done segment rest h hup path hstat ih => exact ih

/-- The clean segments, the last one first, of the names gone so far. -/
def stackOf (done : List String) : List String := done.foldr (fun s stack => push true stack s) []

/-- Is it the name of a file or directory, or a step up? -/
def Kept (s : String) : Prop := s = ".." ∨ Plain s

theorem kept_back (h : ∀ s ∈ done, Kept s) : ∀ s ∈ back done, Kept s := by
  have hup : ∀ s ∈ ".." :: done, Kept s := List.forall_mem_cons.mpr ⟨.inl rfl, h⟩
  unfold back
  split
  · split
    · exact hup
    · exact (List.forall_mem_cons.mp h).2
  · exact hup

/-- A step up does the same to the names gone as to their clean form. -/
theorem stackOf_back (h : ∀ s ∈ done, Kept s) :
    stackOf (back done) = push true (stackOf done) ".." := by
  unfold back
  split
  · rename_i last before rest
    split
    · rfl
    · next hup =>
      have hplain : Plain last := (h last List.mem_cons_self).resolve_left hup
      have hlast : stackOf (last :: before :: rest) = last :: stackOf (before :: rest) :=
        push_plain hplain _
      rw [hlast, push, if_neg (by decide), if_pos rfl]
      exact (if_neg hup).symm
  · rfl

/-- **Every segment followed changes the clean form of what was gone** as it changes that of a
path. -/
theorem stack_of_arrived (hsegs : ∀ s ∈ segs, '/' ∉ s.toList) (hdone : ∀ s ∈ done, Kept s)
    (h : goOn fs rooted done segs = .arrived done') :
    (∀ s ∈ done', Kept s) ∧ stackOf done' = segs.foldl (push true) (stackOf done) := by
  have hplain {done rest : List String} {s : String} (hsegs : ∀ t ∈ s :: rest, '/' ∉ t.toList)
      (hdone : ∀ t ∈ done, Kept t) (hs : ¬ (s = "" ∨ s = ".")) (hup : ¬ s = "..") :
      ∀ t ∈ s :: done, Kept t := by
    have hkept : Kept s := .inr ⟨fun h => hs (.inl h), fun h => hs (.inr h), hup,
      hsegs s List.mem_cons_self⟩
    exact List.forall_mem_cons.mpr ⟨hkept, hdone⟩
  fun_induction goOn fs rooted done segs with
  | case1 =>
    obtain rfl := Progress.arrived.inj h
    exact ⟨hdone, rfl⟩
  | case2 done s rest hs ih =>
    have hpush : push true (stackOf done) s = stackOf done := if_pos hs
    rw [List.foldl_cons, hpush]
    exact ih (List.forall_mem_cons.mp hsegs).2 hdone h
  | case3 done rest hs ih =>
    rw [List.foldl_cons, ← stackOf_back hdone]
    exact ih (List.forall_mem_cons.mp hsegs).2 (kept_back hdone) h
  | case4 => exact nomatch h
  | case5 => exact nomatch h
  | case6 => exact nomatch h
  | case7 done s rest hs hup path hstat hrest =>
    obtain rfl := Progress.arrived.inj h
    obtain rfl := List.isEmpty_iff.mp hrest
    exact ⟨hplain hsegs hdone hs hup, rfl⟩
  | case8 => exact nomatch h
  | case9 done s rest hs hup path hstat ih =>
    exact ih (List.forall_mem_cons.mp hsegs).2 (hplain hsegs hdone hs hup) h

theorem slash_not_mem_of_kept {s : String} (h : Kept s) : '/' ∉ s.toList := by
  rcases h with rfl | h
  · decide
  · exact h.noSlash

/-- Written out, the names gone so far are a path with their clean form. -/
theorem names_gone (h : ∀ s ∈ done, Kept s) : names (gone true done) = (stackOf done).reverse := by
  have hclean : cleanSegments true done.reverse = (stackOf done).reverse := by
    rw [cleanSegments, List.foldl_reverse]
    rfl
  change names (render true done.reverse) = _
  rw [← hclean]
  by_cases hne : done.reverse = []
  · rw [hne]
    rfl
  · have hslash : ∀ s ∈ done.reverse, '/' ∉ s.toList := fun s hs =>
      slash_not_mem_of_kept (h s (List.mem_reverse.mp hs))
    rw [names, segments_render hne hslash]
    rfl

end Path

namespace FileSystem

open Moniker.Path

theorem follow_of_arrived (h : goOn fs (isAbsolute p) [] (segments p) = .arrived done) :
    fs.follow p = .ok (clean (gone (isAbsolute p) done)) := by
  rw [follow, followWithin, h]

theorem follow_of_stopped (h : goOn fs (isAbsolute p) [] (segments p) = .stopped e) :
    fs.follow p = .error e := by
  rw [follow, followWithin, h]

/-- **Without links a path leads to its clean form,** if it leads anywhere. -/
theorem eq_clean_of_follow (hfs : fs.NoLinks) (habs : isAbsolute p = true)
    (h : fs.follow p = .ok q) : q = clean p := by
  cases hgo : goOn fs (isAbsolute p) [] (segments p) with
  | linked target done rest => exact absurd hgo (goOn_ne_linked hfs)
  | stopped e => exact absurd ((follow_of_stopped hgo).symm.trans h) nofun
  | arrived done =>
    obtain rfl := Except.ok.inj ((follow_of_arrived hgo).symm.trans h)
    obtain ⟨hkept, hstack⟩ := stack_of_arrived
      (fun _ => slash_not_mem_of_mem_segments) (List.forall_mem_nil _) hgo
    have hnames : names (gone true done) = names p := by
      rw [names_gone hkept, hstack]
      rfl
    have habs' : isAbsolute (gone true done) = true := isAbsolute_render _
    rw [habs, clean_of_isAbsolute habs', hnames, clean_of_isAbsolute habs]

/-- Going on along names from names that lead down from the top one runs into something. -/
inductive Blocked (fs : FileSystem) (why : String) : List String → List String → Prop
  | refused {above s below reason} : fs.stat (render true (above ++ [s])) = .refused reason →
      why = "lstat " ++ render true (above ++ [s]) ++ ": " ++ reason →
        Blocked fs why above (s :: below)
  | file {above s below} : fs.stat (render true (above ++ [s])) = .file → below ≠ [] →
      why = "not a directory" → Blocked fs why above (s :: below)
  | ahead {above s below} : fs.stat (render true (above ++ [s])) = .directory →
      Blocked fs why (above ++ [s]) below → Blocked fs why above (s :: below)

/-- What is at the first name tells whether it is that one that blocks. -/
theorem blocked_cons_iff {s : String} : fs.Blocked why P (s :: R) ↔
    match fs.stat (render true (P ++ [s])) with
    | .refused reason => why = "lstat " ++ render true (P ++ [s]) ++ ": " ++ reason
    | .file => R ≠ [] ∧ why = "not a directory"
    | .directory => fs.Blocked why (P ++ [s]) R
    | _ => False := by
  constructor
  · intro h
    cases h with
    | refused hstat hwhy => rwa [hstat]
    | file hstat hne hwhy =>
      rw [hstat]
      exact ⟨hne, hwhy⟩
    | ahead hstat h => rwa [hstat]
  · intro h
    split at h
    · next hstat => exact .refused hstat h
    · next hstat => exact .file hstat h.1 h.2
    · next hstat => exact .ahead hstat h
    · exact h.elim

/-- The names of a clean path are followed one after the other, so following it is stopped where
they are blocked. -/
theorem goOn_stopped_iff (hR : ∀ s ∈ R, Plain s) :
    goOn fs true P.reverse R = .stopped (.failed why) ↔ fs.Blocked why P R := by
  induction R generalizing P with
  | nil =>
    have hclear : ¬ fs.Blocked why P [] := fun h => by cases h
    simp [goOn, hclear]
  | cons s R ih =>
    obtain ⟨hs, hrest⟩ := List.forall_mem_cons.mp hR
    have hgone : gone true (s :: P.reverse) = render true (P ++ [s]) := by simp [gone, render]
    have hahead : s :: P.reverse = (P ++ [s]).reverse := by simp
    rw [goOn, if_neg (fun h => h.elim hs.nonempty hs.notHere), if_neg hs.notUp, blocked_cons_iff]
    dsimp only
    rw [hgone]
    cases fs.stat (render true (P ++ [s])) with
    | missing => simp
    | directory =>
      dsimp only
      rw [hahead]
      exact ih hrest
    | file =>
      cases R with
      | nil => simp
      | cons t R => simp [eq_comm]
    | link target => simp
    | refused reason => simp [eq_comm]

theorem follow_error_iff (hfs : fs.NoLinks) :
    fs.follow p = .error e ↔ goOn fs (isAbsolute p) [] (segments p) = .stopped e := by
  cases hgo : goOn fs (isAbsolute p) [] (segments p) with
  | linked target done rest => exact absurd hgo (goOn_ne_linked hfs)
  | arrived done =>
    rw [follow_of_arrived hgo]
    exact ⟨nofun, nofun⟩
  | stopped e' => rw [follow_of_stopped hgo, Except.error.injEq, Progress.stopped.injEq]

theorem obstacle?_eq_some_iff : fs.obstacle? p = some why ↔ fs.follow p = .error (.failed why) := by
  unfold obstacle?
  split
  · next heq => rw [heq, Option.some.injEq, Except.error.injEq, FollowError.failed.injEq]
  · next hne => exact ⟨nofun, fun h => absurd h (hne why)⟩

/-- **What is in the way of a clean path** is the first of its names, from the top, that cannot
be followed. -/
theorem obstacle?_render_iff (hfs : fs.NoLinks) (hR : ∀ s ∈ R, Plain s) :
    fs.obstacle? (render true R) = some why ↔ fs.Blocked why [] R := by
  have hskip (segs : List String) : goOn fs true [] ("" :: segs) = goOn fs true [] segs := by
    rw [goOn, if_pos (.inl rfl)]
  have hsegments : goOn fs true [] (segments (render true R)) = goOn fs true [] R := by
    by_cases hne : R = []
    · subst hne
      have htop : segments (render true []) = ["", ""] := by decide
      rw [htop, hskip, hskip]
    · rw [segments_render hne fun s hs => (hR s hs).noSlash, hskip]
  have hstopped := @goOn_stopped_iff fs why [] R hR
  rw [obstacle?_eq_some_iff, follow_error_iff hfs, isAbsolute_render, hsegments]
  exact hstopped

end FileSystem
end Moniker
