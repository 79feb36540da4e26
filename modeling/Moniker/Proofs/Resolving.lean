/-
# Where paths on the command line land

A relative argument is taken as it stands.  An absolute one and the root are followed first,
and the argument is written from the root; where there are no links, both ends are the paths
that were followed or their clean forms (`Path.eq_or_eq_clean_of_real`).  What is resolved was
checked to climb nowhere, and is written with the characters of the argument
(`Path.resolve_ok`).

Joining a resolved path to the root turns its backslashes into slashes, and then it may
climb: it ends inside the root if it has no backslash, and otherwise only if it comes
back down by the names of the root (`Path.lands_of_resolve`).
-/

import Moniker.Path.Resolve
import Moniker.Proofs.Following

namespace Moniker
namespace Path

variable {fs : FileSystem} {p q root arg rel why : String} {c : Char}

theorem real_of_obstacle (h : fs.obstacle? p = some why) : real fs p = .error (.plain why) := by
  rw [real, FileSystem.obstacle?_eq_some_iff.mp h]

/-- Without links a path stands for itself or for its clean form. -/
theorem eq_or_eq_clean_of_real (hfs : fs.NoLinks) (habs : isAbsolute p = true)
    (h : real fs p = .ok q) : q = p ∨ q = clean p := by
  unfold real at h
  split at h
  · next r hfollow =>
    obtain rfl := Except.ok.inj h
    exact .inr (FileSystem.eq_clean_of_follow hfs habs hfollow)
  · exact .inl (Except.ok.inj h).symm
  · exact nomatch h

/-- Where both ends can be followed, one is written from the other. -/
theorem canonicalize_of_real {target top : String} (harg : real fs arg = .ok target)
    (hroot : real fs root = .ok top) : canonicalize arg root fs =
      match relative? top target with
      | some rel => .ok rel
      | none => .error (.plain ("Rel: can't make " ++ target ++ " relative to " ++ top)) := by
  rw [canonicalize, harg, hroot]
  rfl

/-- What is made relative was followed, and so was the root. -/
theorem canonicalize_ok (h : canonicalize arg root fs = .ok rel) :
    ∃ target top, real fs arg = .ok target ∧ real fs root = .ok top ∧
      relative? top target = some rel := by
  cases harg : real fs arg with
  | error e =>
    rw [canonicalize, harg] at h
    exact nomatch h
  | ok target =>
    cases hroot : real fs root with
    | error e =>
      rw [canonicalize, harg, hroot] at h
      exact nomatch h
    | ok top =>
      rw [canonicalize_of_real harg hroot] at h
      split at h
      · next r hrel =>
        obtain rfl := Except.ok.inj h
        exact ⟨target, top, rfl, rfl, hrel⟩
      · exact nomatch h

theorem mem_canonicalize (hfs : fs.NoLinks) (h : canonicalize arg root fs = .ok rel)
    (harg : isAbsolute arg = true) (hc : c ∈ rel.toList) : Structural c ∨ c ∈ arg.toList := by
  obtain ⟨target, top, htarget, -, hrel⟩ := canonicalize_ok h
  rcases mem_relative hrel hc with hc | hc
  · exact .inl hc
  · rcases eq_or_eq_clean_of_real hfs harg htarget with rfl | rfl
    · exact .inr hc
    · exact mem_clean hc

/-- The check at the end of resolving. -/
theorem checked {e : Failure}
    (h : (if within (clean p) = true then Except.ok (clean p) else Except.error e) = .ok rel) :
    within (clean p) = true ∧ rel = clean p := by
  split at h
  · rename_i hwithin
    exact ⟨hwithin, (Except.ok.inj h).symm⟩
  · exact nomatch h

/-- **What resolving promises:** the path was checked to stay below the root, and is written
with the characters of the argument. -/
theorem resolve_ok (hfs : fs.NoLinks) (h : resolve arg root fs = .ok rel) :
    within rel = true ∧ ∀ c ∈ rel.toList, Structural c ∨ c ∈ arg.toList := by
  obtain ⟨r, hr, hwithin, rfl⟩ : ∃ r, (∀ c ∈ r.toList, Structural c ∨ c ∈ arg.toList) ∧
      within (clean r) = true ∧ rel = clean r := by
    unfold resolve at h
    split at h
    · rename_i habs
      cases hcanon : canonicalize arg root fs with
      | error e =>
        rw [hcanon] at h
        exact nomatch h
      | ok r =>
        rw [hcanon] at h
        exact ⟨r, fun c => mem_canonicalize hfs hcanon habs, checked h⟩
    · exact ⟨arg, fun c hc => .inr hc, checked h⟩
  refine ⟨hwithin, fun c hc => ?_⟩
  rcases mem_clean hc with hc | hc
  · exact .inl hc
  · exact hr c hc

/-- A relative argument is accepted if it stays below the root. -/
theorem resolve_relative (habs : isAbsolute arg = false) (h : within (clean arg) = true) :
    resolve arg root fs = .ok (clean arg) := by
  unfold resolve
  rw [if_neg (Bool.eq_false_iff.mp habs)]
  exact if_pos h

/-! ### What is read and written -/

/-- Where a path joined to a root lies: it is clean and absolute; it is inside the root
just when it comes back down by the names it has climbed over once its backslashes count as
slashes; and it is inside the root if it was resolved from an argument without any. -/
structure Lands (root arg rel : String) : Prop where
  absolute : isAbsolute (joinRoot root rel) = true
  cleaned : clean (joinRoot root rel) = joinRoot root rel
  inside_iff : Inside root (joinRoot root rel) ↔
    (names root).drop ((names root).length - climb (slashed rel)) <+: descent (slashed rel)
  inside : '\\' ∉ arg.toList → Inside root (joinRoot root rel)

/-- **Where a path given by a user lands.** What is read or written lies inside the project
root, unless the argument has backslashes that lead out of it once they count as slashes. -/
theorem lands_of_resolve (fs : FileSystem) (hfs : fs.NoLinks) (root arg rel : String)
    (hroot : isAbsolute root = true) (hclean : clean root = root)
    (h : resolve arg root fs = .ok rel) : Lands root arg rel := by
  obtain ⟨hwithin, hchars⟩ := resolve_ok hfs h
  have hiff := @inside_joinRoot_iff root rel hroot hclean
  refine ⟨?_, ?_, hiff, fun harg => ?_⟩
  · rw [joinRoot_eq hroot]
    exact isAbsolute_render _
  · rw [joinRoot_eq hroot]
    exact clean_render fun s => plain_of_mem_landing
  · have hrel : '\\' ∉ rel.toList := by
      intro hc
      rcases hchars _ hc with (hc | hc) | hc
      · exact absurd hc (by decide)
      · exact absurd hc (by decide)
      · exact harg hc
    rw [hiff, slashed_of_not_mem hrel, (within_iff.mp hwithin).2, Nat.sub_zero, List.drop_length]
    exact List.nil_prefix

/-- An argument whose backslashes lead out of the root: it is accepted, and what is written
lies outside. -/
theorem lands_of_resolve_outside :
    FileSystem.empty.NoLinks ∧ isAbsolute "/project" = true ∧ clean "/project" = "/project" ∧
      resolve "..\\..\\etc" "/project" = .ok "..\\..\\etc" ∧
      joinRoot "/project" "..\\..\\etc" = "/etc" ∧ ¬ Inside "/project" "/etc" ∧
      Lands "/project" "..\\..\\etc" "..\\..\\etc" := by
  have hroot : isAbsolute "/project" = true := by decide
  have hclean : clean "/project" = "/project" := by cbv
  have hok : resolve "..\\..\\etc" "/project" = .ok "..\\..\\etc" := by
    have harg : clean "..\\..\\etc" = "..\\..\\etc" := by cbv
    have hwithin : within "..\\..\\etc" = true := by cbv
    have h := @resolve_relative .empty "/project" "..\\..\\etc" (by decide)
      (harg.symm ▸ hwithin)
    rwa [harg] at h
  have hfs := FileSystem.noLinks_empty
  exact ⟨hfs, hroot, hclean, hok, by cbv, by decide, lands_of_resolve _ hfs _ _ _ hroot hclean hok⟩

end Path
end Moniker
