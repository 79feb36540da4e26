/-
# Below a root and back

A path below a root can be written from the root or from the top of the file system.  Both
ways it is told by the names that lead down to it: from the root they are the path itself
(`Path.clean_of_within`), from the top they follow the names of the root
(`Path.joinRoot_of_within`).  Going from one path to another drops the names they have in
common, and so gives back what follows the root (`Path.relative?_render`).

The clean form of a path walks where the path walks (`Path.walk_clean`), so cleaning it once
more changes nothing.  Hence a resolved path resolves to itself, and without links a path
joined to a root resolves to its clean form, unless something on disk is in the way of one of
them (`Path.roundTrips_resolve`).  A name that is too long is in the way even where there is
nothing (`Path.resolve_ne_clean_longName`).
-/

import Moniker.Proofs.Manifests
import Moniker.Proofs.Resolving

namespace Moniker
namespace Path

variable {fs : FileSystem} {p root arg rel why : String} {R : List String}

/-! ### Clean paths are clean -/

theorem foldl_step_replicate (up n : Nat) :
    (List.replicate n "..").foldl Walk.step ⟨up, []⟩ = ⟨up + n, []⟩ := by
  induction n generalizing up with
  | zero => rfl
  | succ n ih =>
    have hstep : Walk.step ⟨up, []⟩ ".." = ⟨up + 1, []⟩ := rfl
    rw [List.replicate_succ, List.foldl_cons, hstep, ih, Nat.add_assoc, Nat.add_comm 1 n]

/-- The segments of a clean relative path: steps up, then names, or a dot for neither. -/
theorem segments_clean (h : isAbsolute p = false) :
    segments (clean p) =
      if List.replicate (climb p) ".." ++ descent p = [] then ["."]
      else List.replicate (climb p) ".." ++ descent p := by
  rw [clean_of_not_isAbsolute h]
  split
  · next hnil =>
    rw [hnil]
    decide
  · next hne =>
    refine segments_render_relative hne fun s hs => ?_
    rcases List.mem_append.mp hs with hs | hs
    · rw [(List.mem_replicate.mp hs).2]
      decide
    · exact (plain_of_mem_descent hs).noSlash

/-- **The clean form of a relative path** leads where the path leads. -/
theorem walk_clean (h : isAbsolute p = false) : walk (segments (clean p)) = walk (segments p) := by
  have hwalk : walk (List.replicate (climb p) ".." ++ descent p) = walk (segments p) := by
    rw [walk, List.foldl_append, foldl_step_replicate, walk_plain fun _ => plain_of_mem_descent,
      descent, List.reverse_reverse, List.append_nil, Nat.zero_add, climb]
  rw [segments_clean h]
  split
  · next hnil =>
    rw [← hwalk, hnil]
    rfl
  · exact hwalk

theorem isAbsolute_clean (p : String) : isAbsolute (clean p) = isAbsolute p := by
  cases h : isAbsolute p with
  | true =>
    rw [clean_of_isAbsolute h]
    exact isAbsolute_render _
  | false =>
    have hhead : ∃ s, (segments (clean p)).head? = some s ∧ s ≠ "" := by
      rw [segments_clean h]
      cases hk : climb p with
      | succ k => exact ⟨"..", rfl, by decide⟩
      | zero =>
        cases hd : descent p with
        | nil => exact ⟨".", rfl, by decide⟩
        | cons d ds => exact ⟨d, rfl, (plain_of_mem_descent (hd ▸ List.mem_cons_self)).nonempty⟩
    obtain ⟨s, hs, hne⟩ := hhead
    exact isAbsolute_of_head hs hne

/-- **Cleaning a clean path changes nothing.** -/
@[simp] theorem clean_clean (p : String) : clean (clean p) = clean p := by
  cases h : isAbsolute p with
  | true =>
    rw [clean_of_isAbsolute h]
    exact clean_render fun _ => plain_of_mem_names
  | false =>
    have habs : isAbsolute (clean p) = false := (isAbsolute_clean p).trans h
    rw [clean_of_not_isAbsolute habs, climb, descent, walk_clean h, ← climb, ← descent,
      ← clean_of_not_isAbsolute h]

@[simp] theorem within_clean (p : String) : within (clean p) = within p := by
  rw [within, clean_clean, within]

/-- Plain names written one below the other lead nowhere up. -/
theorem within_render_false (h : ∀ s ∈ R, Plain s) : within (render false R) = true := by
  have habs : isAbsolute (render false R) = false := by
    cases R with
    | nil => decide
    | cons s R =>
      have hsegs := segments_render_false h
      rw [if_neg (List.cons_ne_nil s R)] at hsegs
      exact isAbsolute_of_head (by rw [hsegs]; rfl) (h s List.mem_cons_self).nonempty
  rw [within_iff, climb, walk_render_false h]
  exact ⟨habs, rfl⟩

/-! ### From the root to a path below it -/

theorem plain_of_mem_below (root rel : String) :
    ∀ s ∈ names root ++ descent rel, Plain s := fun _ hs =>
  (List.mem_append.mp hs).elim plain_of_mem_names plain_of_mem_descent

/-- **Joined to a root,** a path that climbs nowhere goes on from the names of the root. -/
theorem joinRoot_of_within (hroot : isAbsolute root = true) (hslash : '\\' ∉ rel.toList)
    (h : within rel = true) : joinRoot root rel = render true (names root ++ descent rel) := by
  rw [joinRoot_eq hroot, landing, slashed_of_not_mem hslash, (within_iff.mp h).2, Nat.sub_zero,
    List.take_length]

theorem dropCommon_append (R more : List String) : dropCommon R (R ++ more) = ([], more) := by
  induction R with
  | nil => cases more <;> rfl
  | cons s R ih => simp [dropCommon, ih]

/-- **What leads from a root to a path below it** are the names that follow the root's. -/
theorem relative?_render (hroot : isAbsolute root = true) (h : ∀ s ∈ R, Plain s) :
    relative? root (render true (names root ++ R)) = some (render false R) := by
  have hplain : ∀ s ∈ names root ++ R, Plain s := fun s hs =>
    (List.mem_append.mp hs).elim plain_of_mem_names (h s)
  have habs : isAbsolute (render true (names root ++ R)) = true := isAbsolute_render _
  have hsame : clean (render true (names root ++ R)) = clean root ↔ R = [] := by
    rw [clean_render hplain, clean_of_isAbsolute hroot,
      render_inj (fun _ => plain_of_mem_names) hplain]
    simp
  have hto : writtenSegments (render true (names root ++ R)) = names root ++ R := by
    have hnames := names_render hplain
    rw [names] at hnames
    simp [writtenSegments, habs, hnames]
  unfold relative?
  cases R with
  | nil =>
    rw [if_pos (hsame.mpr rfl)]
    rfl
  | cons s R =>
    rw [if_neg (mt hsame.mp (List.cons_ne_nil s R)), hroot, habs, hto, ← names]
    simp only [dropCommon_append]
    rfl

/-! ### Resolving -/

theorem names_clean (h : isAbsolute p = true) : names (clean p) = names p := by
  rw [clean_of_isAbsolute h, names_render fun _ => plain_of_mem_names]

/-- Where nothing is in the way, a path can be followed as far as there is something. -/
theorem exists_real (h : fs.obstacle? p = none) : ∃ q, real fs p = .ok q := by
  unfold real
  split
  · exact ⟨_, rfl⟩
  · exact ⟨_, rfl⟩
  · next hfollow =>
    rw [FileSystem.obstacle?_eq_some_iff.mpr hfollow] at h
    exact nomatch h

/-- An absolute argument is accepted if what leads to it from the root stays below the root, and
nothing is in the way of either. -/
theorem resolve_absolute {target top : String} (harg : isAbsolute arg = true)
    (htarget : real fs arg = .ok target) (htop : real fs root = .ok top)
    (hrel : relative? top target = some rel) (h : within rel = true) :
    resolve arg root fs = .ok (clean rel) := by
  have hcanon : canonicalize arg root fs = .ok rel := by
    rw [canonicalize_of_real htarget htop, hrel]
  unfold resolve
  rw [if_pos harg, hcanon]
  exact if_pos ((within_clean rel).trans h)

/-- What is in the way of the argument, or else of the root, is why it cannot be resolved. -/
theorem resolve_of_obstacle (harg : isAbsolute arg = true)
    (h : (fs.obstacle? arg).or (fs.obstacle? root) = some why) :
    resolve arg root fs = .error (unresolved arg why) := by
  have hcanon : canonicalize arg root fs = .error (.plain why) := by
    cases hpath : fs.obstacle? arg with
    | some why' =>
      rw [hpath] at h
      obtain rfl := Option.some.inj h
      rw [canonicalize, real_of_obstacle hpath]
      rfl
    | none =>
      rw [hpath] at h
      obtain ⟨target, htarget⟩ := exists_real hpath
      rw [canonicalize, htarget, real_of_obstacle h]
      rfl
  unfold resolve
  rw [if_pos harg, hcanon]
  rfl

/-- What is resolved is the clean form of a path that stays below the root. -/
theorem exists_clean_of_resolve (h : resolve arg root fs = .ok rel) :
    ∃ p, within p = true ∧ rel = clean p := by
  obtain ⟨p, hwithin, hrel⟩ : ∃ p, within (clean p) = true ∧ rel = clean p := by
    unfold resolve at h
    split at h
    · cases hcanon : canonicalize arg root fs with
      | error e =>
        rw [hcanon] at h
        exact nomatch h
      | ok r =>
        rw [hcanon] at h
        exact ⟨r, checked h⟩
    · exact ⟨arg, checked h⟩
  exact ⟨p, (within_clean p).symm.trans hwithin, hrel⟩

/-- What becomes of paths that are resolved from a root, or were. -/
structure RoundTrips (fs : FileSystem) (root : String) : Prop where
  /-- Joined to the root and resolved, a path below the root is its own clean form, unless
  something is in the way of the joined path or of the root. -/
  back : ∀ rel, '\\' ∉ rel.toList → within rel = true →
    resolve (joinRoot root rel) root fs =
      match (fs.obstacle? (joinRoot root rel)).or (fs.obstacle? root) with
      | some why => .error (unresolved (joinRoot root rel) why)
      | none => .ok (clean rel)
  /-- What is in the way is the first name of the root or of the path, from the top, that
  cannot be followed. -/
  obstacle : ∀ rel why, '\\' ∉ rel.toList → within rel = true →
    (fs.obstacle? (joinRoot root rel) = some why ↔ fs.Blocked why [] (names root ++ descent rel))
  /-- Resolving what was resolved changes nothing. -/
  again : ∀ arg rel, resolve arg root fs = .ok rel → resolve rel root fs = .ok rel

/-- **There and back.** Where there are no links, a path below the root, joined to it and resolved,
is its own clean form unless something is in the way; and resolving what was resolved changes
nothing. -/
theorem roundTrips_resolve (fs : FileSystem) (hfs : fs.NoLinks) (root : String)
    (hroot : isAbsolute root = true) : RoundTrips fs root where
  back rel hslash hrel := by
    have hjoin := joinRoot_of_within hroot hslash hrel
    have hplain := plain_of_mem_below root rel
    have habs : isAbsolute (joinRoot root rel) = true := by
      rw [joinRoot_eq hroot]
      exact isAbsolute_render _
    split
    · next why h => exact resolve_of_obstacle habs h
    · next h =>
      obtain ⟨hpath, htop⟩ := Option.or_eq_none_iff.mp h
      obtain ⟨target, htarget⟩ := exists_real hpath
      obtain ⟨top, htop⟩ := exists_real htop
      have hsame : target = joinRoot root rel := by
        rcases eq_or_eq_clean_of_real hfs habs htarget with rfl | rfl
        · rfl
        · rw [hjoin]
          exact clean_render hplain
      have hback : relative? top target = some (render false (descent rel)) := by
        rw [hsame, hjoin]
        rcases eq_or_eq_clean_of_real hfs hroot htop with rfl | rfl
        · exact relative?_render hroot fun _ => plain_of_mem_descent
        · rw [← names_clean hroot]
          exact relative?_render ((isAbsolute_clean root).trans hroot) fun _ => plain_of_mem_descent
      rw [resolve_absolute habs htarget htop hback
        (within_render_false fun _ => plain_of_mem_descent), ← clean_of_within hrel, clean_clean]
  obstacle rel why hslash hrel := by
    rw [joinRoot_of_within hroot hslash hrel]
    exact FileSystem.obstacle?_render_iff hfs (plain_of_mem_below root rel)
  again arg rel h := by
    obtain ⟨p, hwithin, rfl⟩ := exists_clean_of_resolve h
    have hclean : within (clean p) = true := (within_clean p).trans hwithin
    have hok : resolve (clean p) root fs = .ok (clean (clean p)) :=
      resolve_relative (within_iff.mp hclean).1 ((within_clean (clean p)).trans hclean)
    rwa [clean_clean] at hok

/-- A project with one file on a disk. -/
def oneFile : FileSystem := .ofStat fun p =>
  if p ∈ ["/home", "/home/project", "/home/project/src"] then .directory
  else if p = "/home/project/src/a.ts" then .file
  else .missing

theorem noLinks_oneFile : oneFile.NoLinks := by
  refine FileSystem.noLinks_ofStat fun p target => ?_
  split
  · exact nofun
  · split
    · exact nofun
    · exact nofun

/-- Below a root that is not clean itself: a path with empty segments, dots and a step up, a path
that goes on behind a file, and an absolute argument that leads to the root itself. -/
theorem roundTrips_resolve_detour :
    oneFile.NoLinks ∧ isAbsolute "/home//project/" = true ∧
      '\\' ∉ "src//./x/../a.ts/".toList ∧ within "src//./x/../a.ts/" = true ∧
      joinRoot "/home//project/" "src//./x/../a.ts/" = "/home/project/src/a.ts" ∧
      resolve "/home/project/src/a.ts" "/home//project/" oneFile = .ok "src/a.ts" ∧
      resolve "/home/project/src/a.ts/b" "/home//project/" oneFile =
        .error (unresolved "/home/project/src/a.ts/b" "not a directory") ∧
      resolve "/home/./project" "/home//project/" oneFile = .ok "." ∧
      resolve "." "/home//project/" oneFile = .ok "." := by
  have hroot : isAbsolute "/home//project/" = true := by decide
  have hslash : '\\' ∉ "src//./x/../a.ts/".toList := by decide
  have hwithin : within "src//./x/../a.ts/" = true := by cbv
  have hjoin : joinRoot "/home//project/" "src//./x/../a.ts/" = "/home/project/src/a.ts" := by
    decide +kernel
  have hjoin' : joinRoot "/home//project/" "src/a.ts/b" = "/home/project/src/a.ts/b" := by
    decide +kernel
  have hclean : clean "src//./x/../a.ts/" = "src/a.ts" := by cbv
  have htop : oneFile.follow "/home//project/" = .ok "/home/project" := by decide +kernel
  have hself : oneFile.follow "/home/./project" = .ok "/home/project" := by decide +kernel
  have hfile : oneFile.obstacle? "/home/project/src/a.ts" = none := by decide +kernel
  have hbelow : oneFile.obstacle? "/home/project/src/a.ts/b" = some "not a directory" := by
    decide +kernel
  have hdot : resolve "/home/./project" "/home//project/" oneFile = .ok "." := by
    have hclean : clean "." = "." := by cbv
    have hrel : relative? "/home/project" "/home/project" = some "." := if_pos rfl
    have h := @resolve_absolute oneFile "/home//project/" "/home/./project" "." "/home/project"
      "/home/project" (by decide) (by rw [real, hself]) (by rw [real, htop]) hrel (by cbv)
    rwa [hclean] at h
  have hround := roundTrips_resolve oneFile noLinks_oneFile "/home//project/" hroot
  refine ⟨noLinks_oneFile, hroot, hslash, hwithin, hjoin, ?_, ?_, hdot, hround.again _ _ hdot⟩
  · have hfree : oneFile.obstacle? "/home//project/" = none := by rw [FileSystem.obstacle?, htop]
    have h := hround.back _ hslash hwithin
    rwa [hjoin, hfile, hfree, hclean] at h
  · have h := hround.back "src/a.ts/b" (by decide) (by cbv)
    rwa [hjoin', hbelow] at h

/-- A name longer than file systems take is refused, whatever there is. -/
theorem stat_ofStat_of_long {stat : String → Stat} (hs : Plain s) (hnul : '\x00' ∉ s.toList)
    (hlong : 255 < s.utf8ByteSize) :
    (FileSystem.ofStat stat).stat (render true [s]) = .refused "file name too long" := by
  have hrender : (render true [s]).toList = '/' :: s.toList := by simp [render, Text.join]
  have hcontains : (render true [s]).toList.contains '\x00' = false := by
    rw [hrender]
    simpa using hnul
  have hlong : ((segments (render true [s])).any fun s => 255 < s.utf8ByteSize) = true := by
    rw [segments_render (List.cons_ne_nil s []) fun t ht => List.mem_singleton.mp ht ▸ hs.noSlash]
    simp [hlong]
  have hrefused : FileSystem.unnameable? (render true [s]) = some "file name too long" := by
    rw [FileSystem.unnameable?, hcontains, hlong, Bool.or_true]
    rfl
  unfold FileSystem.ofStat
  dsimp only
  rw [hrefused]

theorem within_of_plain (hs : Plain s) : within s = true ∧ descent s = [s] := by
  have hrender : render false [s] = s := by simp [render, Text.join]
  have hplain : ∀ t ∈ [s], Plain t := List.forall_mem_singleton.mpr hs
  have hwalk := walk_render_false hplain
  rw [hrender] at hwalk
  refine ⟨hrender ▸ within_render_false hplain, ?_⟩
  rw [descent, hwalk]
  rfl

/-- So such a name cannot be resolved once it is joined to the top. -/
theorem resolve_of_long (hs : Plain s) (hslash : '\\' ∉ s.toList) (hnul : '\x00' ∉ s.toList)
    (hlong : 255 < s.utf8ByteSize) :
    ∃ why, resolve (joinRoot "/" s) "/" = .error (unresolved (joinRoot "/" s) why) := by
  obtain ⟨hwithin, hdescent⟩ := within_of_plain hs
  have hplain : ∀ t ∈ [s], Plain t := List.forall_mem_singleton.mpr hs
  have hjoin : joinRoot "/" s = render true [s] := by
    rw [joinRoot_of_within (by decide) hslash hwithin, hdescent]
    rfl
  have hobstacle := (FileSystem.obstacle?_render_iff FileSystem.noLinks_empty hplain).mpr
    (.refused (stat_ofStat_of_long hs hnul hlong) rfl)
  rw [hjoin]
  exact ⟨_, resolve_of_obstacle (isAbsolute_render _) (by rw [hobstacle, Option.some_or])⟩

/-- A text that repeats one character has no other. -/
theorem not_mem_repeated {n : Nat} {c d : Char} (h : c ≠ d) :
    c ∉ (String.ofList (List.replicate n d)).toList := by
  rw [String.toList_ofList, List.mem_replicate, not_and]
  exact fun _ => h

/-- A name longer than file systems take. -/
def longName : String := String.ofList (List.replicate 300 'a')

theorem resolve_ne_clean_longName :
    FileSystem.empty.NoLinks ∧ isAbsolute "/" = true ∧ '\\' ∉ longName.toList ∧
      within longName = true ∧ resolve (joinRoot "/" longName) "/" ≠ .ok (clean longName) := by
  have hlong : 255 < longName.utf8ByteSize := by decide +kernel
  have hmem {c : Char} (hc : c ≠ 'a') : c ∉ longName.toList := not_mem_repeated hc
  have hshort {s : String} (hs : s.utf8ByteSize ≤ 255) : longName ≠ s :=
    fun h => absurd (h ▸ hlong) (not_lt.mpr hs)
  have hplain : Plain longName :=
    ⟨hshort (by decide), hshort (by decide), hshort (by decide), hmem (by decide)⟩
  obtain ⟨why, h⟩ := resolve_of_long hplain (hmem (by decide)) (hmem (by decide)) hlong
  refine ⟨FileSystem.noLinks_empty, by decide, hmem (by decide), (within_of_plain hplain).1, ?_⟩
  rw [h]
  exact nofun

end Path
end Moniker
