/-
# Entries own disjoint directories

A path lies in a directory just when it begins with the segments of the directory
(`Path.nested_iff`).  So if one path lies in two directories, one of them lies in the other
(`Path.nested_or_nested`), and a path that climbs nowhere stays in the directory it is joined
to (`Path.nested_join`).

A manifest is valid if each entry is well formed and any two are apart, which is a property
of the entries that knows no order (`Manifest.validate_ok_iff`); whichever of the earlier
entries is compared first, the same manifests are accepted (`Manifest.checkIn_ok_iff`).
-/

import Moniker.Manifest
import Moniker.Proofs.Paths
import Mathlib.Data.List.Basic
import Mathlib.Data.List.Induction

namespace Moniker
namespace Path

variable {p q root : String} {segs R P : List String}

/-! ### Directories that share a path -/

/-- **A path lies in a directory** just when it begins with the directory's segments. -/
theorem nested_iff : nested p root = true ↔ root = "." ∨ segments root <+: segments p := by
  simp only [nested, Bool.or_eq_true, decide_eq_true_eq, or_assoc]
  refine or_congr_right ⟨?_, ?_⟩
  · rintro (rfl | hbelow)
    · exact List.prefix_rfl
    · obtain ⟨more, -, hmore⟩ := startsIn_slash_iff.mp hbelow
      exact ⟨more, hmore.symm⟩
  · rintro ⟨more, hmore⟩
    by_cases hne : more = []
    · left
      rw [← join_segments p, ← hmore, hne, List.append_nil, join_segments]
    · exact .inr (startsIn_slash_iff.mpr ⟨more, hne, hmore.symm⟩)

/-- **Of two directories that share a path one lies in the other.** -/
theorem nested_or_nested {root' : String} (h : nested p root = true) (h' : nested p root' = true) :
    nested root root' = true ∨ nested root' root = true := by
  simp only [nested_iff] at h h' ⊢
  rcases h with h | h
  · exact .inr (.inl h)
  rcases h' with h' | h'
  · exact .inl (.inl h')
  rcases List.prefix_or_prefix_of_prefix h h' with hle | hle
  · exact .inr (.inr hle)
  · exact .inl (.inr hle)

/-! ### Paths joined to a directory -/

theorem Walk.up_le_step (w : Walk) (s : String) : w.up ≤ (w.step s).up := by
  unfold Walk.step
  split
  · exact le_rfl
  · split
    · split
      · exact Nat.le_succ _
      · exact le_rfl
    · exact le_rfl

/-- **A walk that leads nowhere up** leads down from wherever it starts. -/
theorem Walk.foldl_of_up_eq_zero (h : (walk segs).up = 0) (w : Walk) :
    segs.foldl Walk.step w = ⟨w.up, (walk segs).down ++ w.down⟩ := by
  induction segs using List.reverseRecOn with
  | nil => rfl
  | append_singleton segs s ih =>
    have hwalk : walk (segs ++ [s]) = (walk segs).step s := by
      rw [walk, List.foldl_append]
      rfl
    rw [hwalk] at h
    have hup : (walk segs).up = 0 := Nat.le_zero.mp (h ▸ Walk.up_le_step _ s)
    rw [hwalk, List.foldl_append, ih hup, List.foldl_cons, List.foldl_nil]
    clear ih hwalk
    generalize walk segs = w' at hup h ⊢
    obtain ⟨up, down⟩ := w'
    obtain rfl : up = 0 := hup
    unfold Walk.step at h ⊢
    split
    · rfl
    · split
      · cases down with
        | nil => simp_all
        | cons last rest => rfl
      · rfl

/-- The directory that names lead down to is written by them, or as a dot. -/
theorem segments_render_false (h : ∀ s ∈ R, Plain s) :
    segments (render false R) = if R = [] then ["."] else R := by
  split
  · next hR =>
    subst hR
    decide
  · next hR => exact segments_render_relative hR fun s hs => (h s hs).noSlash

theorem walk_plain (h : ∀ s ∈ R, Plain s) (w : Walk) :
    R.foldl Walk.step w = ⟨w.up, R.reverse ++ w.down⟩ := by
  induction R generalizing w with
  | nil => rfl
  | cons s R ih =>
    have hs := h s List.mem_cons_self
    have hstep : w.step s = { w with down := s :: w.down } := by
      rw [Walk.step, if_neg (fun hd => hd.elim hs.nonempty hs.notHere), if_neg hs.notUp]
    rw [List.foldl_cons, hstep, ih fun t ht => h t (List.mem_cons_of_mem _ ht)]
    simp

theorem walk_render_false (h : ∀ s ∈ R, Plain s) :
    walk (segments (render false R)) = ⟨0, R.reverse⟩ := by
  rw [segments_render_false h]
  split
  · next hR =>
    subst hR
    rfl
  · rw [walk, walk_plain h, List.append_nil]

/-- A path of the project, cleaned: what it leads down. -/
theorem clean_of_within (h : within p = true) : clean p = render false (descent p) := by
  obtain ⟨habs, hclimb⟩ := within_iff.mp h
  rw [clean_of_not_isAbsolute habs, hclimb]
  rfl

/-- **A path that climbs nowhere goes on from the directory it is joined to.** -/
theorem join_render_false (h : ∀ s ∈ R, Plain s) (hq : within q = true) :
    join [render false R, q] = render false (R ++ descent q) := by
  have hclimb := (within_iff.mp hq).2
  have hhead : ∃ s, (segments (render false R)).head? = some s ∧ s ≠ "" := by
    rw [segments_render_false h]
    cases R with
    | nil => exact ⟨".", rfl, by decide⟩
    | cons s R => exact ⟨s, rfl, (h s List.mem_cons_self).nonempty⟩
  have hne : render false R ≠ "" := by
    intro hempty
    obtain ⟨s, hs, hsne⟩ := hhead
    rw [hempty, segments_empty] at hs
    exact hsne (Option.some.inj hs).symm
  rw [join_cons hne]
  generalize ht : Text.join "/" (render false R :: [q].filter (· ≠ "")) = t
  -- A missing path has the one segment that leads nowhere, so both cases walk alike.
  have hwalk : walk (segments t) = ⟨0, (walk (segments q)).down ++ R.reverse⟩ ∧
      (segments t).head? = (segments (render false R)).head? := by
    have hdown := Walk.foldl_of_up_eq_zero hclimb ⟨0, R.reverse⟩
    by_cases hempty : q = ""
    · subst hempty
      have ht' : t = render false R := by rw [← ht]; rfl
      rw [ht', walk_render_false h]
      exact ⟨rfl, rfl⟩
    · have ht' : t = render false R ++ "/" ++ q := by
        rw [← ht, List.filter_cons_of_pos (by simpa using hempty), List.filter_nil]
        exact join_append (R := [render false R]) (D := [q]) (by simp) (by simp)
      rw [ht', segments_append_slash]
      refine ⟨?_, by
        rw [List.head?_append_of_ne_nil _ (segments_ne_nil _)]⟩
      have hroot : (segments (render false R)).foldl Walk.step ⟨0, []⟩ = ⟨0, R.reverse⟩ :=
        walk_render_false h
      rw [walk, List.foldl_append, hroot]
      exact hdown
  obtain ⟨s, hs, hsne⟩ := hhead
  rw [clean_of_not_isAbsolute (isAbsolute_of_head (hwalk.2.trans hs) hsne), climb, descent,
    hwalk.1, List.reverse_append, List.reverse_reverse]
  rfl

/-- **Relative directories lie in each other** just when the names that lead down to them go
on. -/
theorem nested_render_iff (hR : ∀ s ∈ R, Plain s) (hP : ∀ s ∈ P, Plain s) :
    nested (render false P) (render false R) = true ↔ R <+: P := by
  have hdot : render false R = "." ↔ R = [] := by
    refine ⟨fun h => ?_, fun h => h ▸ rfl⟩
    by_contra hne
    have hsegs := segments_render_relative hne fun s hs => (hR s hs).noSlash
    rw [h, show segments "." = ["."] by decide] at hsegs
    exact (hR "." (hsegs ▸ List.mem_singleton_self _)).notHere rfl
  rw [nested_iff, hdot, segments_render_false hR, segments_render_false hP]
  by_cases hnil : R = []
  · simp [hnil]
  · rw [if_neg hnil, or_iff_right hnil]
    by_cases hnil' : P = []
    · rw [hnil', if_pos rfl]
      refine iff_of_false (fun h => ?_) fun h => hnil (List.prefix_nil.mp h)
      obtain ⟨s, R, rfl⟩ := List.exists_cons_of_ne_nil hnil
      exact (hR s List.mem_cons_self).notHere (List.cons_prefix_cons.mp h).1
    · rw [if_neg hnil']

/-- What a path that climbs nowhere means in a directory of the project. -/
theorem join_clean (hroot : within root = true) (hq : within q = true) :
    join [clean root, q] = render false (descent root ++ descent q) := by
  rw [clean_of_within hroot, join_render_false (fun _ => plain_of_mem_descent) hq]

/-- **A path that climbs nowhere stays in the directory it is joined to.** -/
theorem nested_join (hroot : within root = true) (hq : within q = true) :
    nested (join [clean root, q]) (clean root) = true := by
  rw [join_clean hroot hq, clean_of_within hroot, nested_render_iff]
  · exact List.prefix_append _ _
  · exact fun _ => plain_of_mem_descent
  · intro s hs
    exact (List.mem_append.mp hs).elim plain_of_mem_descent plain_of_mem_descent

end Path

/-! ### Valid manifests -/

namespace ManifestEntry

variable {a b e : ManifestEntry} {before : List ManifestEntry} {i : Nat}

/-- An entry that is well formed by itself. -/
structure WellFormed (e : ManifestEntry) : Prop where
  named : e.name ≠ ""
  rooted : e.root ≠ ""
  /-- Every path it names stays in the project. -/
  inside : ∀ p ∈ e.paths, p ≠ "" → Path.within p = true
  bundled : e.output ≠ "" → e.bundle ≠ ""

/-- Two entries that have no name and no path in common. -/
structure Apart (a b : ManifestEntry) : Prop where
  names : a.name ≠ b.name
  roots : a.overlaps b = false

theorem overlaps_comm (a b : ManifestEntry) : a.overlaps b = b.overlaps a := Bool.or_comm _ _

theorem overlaps_self (e : ManifestEntry) : e.overlaps e = true := by
  simp [overlaps, Path.nested]

/-- **Apart are two entries that share no path.** -/
theorem overlaps_eq_false_iff : a.overlaps b = false ↔
    ∀ p, ¬ (Path.nested p a.cleanRoot = true ∧ Path.nested p b.cleanRoot = true) := by
  constructor
  · rintro h p ⟨ha, hb⟩
    rw [overlaps, Bool.or_eq_false_iff] at h
    rcases Path.nested_or_nested ha hb with hnested | hnested
    · exact absurd hnested (Bool.eq_false_iff.mp h.1)
    · exact absurd hnested (Bool.eq_false_iff.mp h.2)
  · intro h
    have hself (r : String) : Path.nested r r = true :=
      Path.nested_iff.mpr (.inr List.prefix_rfl)
    rw [overlaps, Bool.or_eq_false_iff, Bool.eq_false_iff, Bool.eq_false_iff]
    exact ⟨fun hab => h _ ⟨hself _, hab⟩, fun hba => h _ ⟨hba, hself _⟩⟩

theorem escapingPath?_eq_none_iff :
    e.escapingPath? = none ↔ ∀ p ∈ e.paths, p ≠ "" → Path.within p = true := by
  simp [escapingPath?, List.find?_eq_none]

/-- **An entry is accepted** if it is well formed and apart from those before it. -/
theorem check_ok_iff : e.check before i = .ok () ↔ e.WellFormed ∧ ∀ b ∈ before, Apart b e := by
  unfold check
  constructor
  · intro h
    split_ifs at h with hname hnames hroot hbundle
    · cases hesc : e.escapingPath? <;> simp [hesc] at h
    cases hesc : e.escapingPath? with
    | some p => simp [hesc] at h
    | none =>
      cases hfind : before.find? fun b => e.overlaps b with
      | some b => simp [hesc, hfind] at h
      | none =>
        refine ⟨⟨hname, hroot, escapingPath?_eq_none_iff.mp hesc, fun ho hb => hbundle ⟨ho, hb⟩⟩,
          fun b hb => ⟨fun heq => hnames ?_, ?_⟩⟩
        · exact List.any_eq_true.mpr ⟨b, hb, by simpa using heq⟩
        · rw [overlaps_comm]
          exact Bool.eq_false_iff.mpr (List.find?_eq_none.mp hfind b hb)
  · rintro ⟨hwell, hapart⟩
    have hnames : ¬ (before.any fun b => b.name = e.name) = true := by
      intro hany
      obtain ⟨b, hb, heq⟩ := List.any_eq_true.mp hany
      exact (hapart b hb).names (by simpa using heq)
    have hfind : before.find? (fun b => e.overlaps b) = none :=
      List.find?_eq_none.mpr fun b hb hover =>
        Bool.false_ne_true ((hapart b hb).roots ▸ overlaps_comm b e ▸ hover)
    rw [if_neg hwell.named, if_neg hnames, if_neg hwell.rooted,
      escapingPath?_eq_none_iff.mpr hwell.inside, hfind]
    exact if_neg fun h => hwell.bundled h.1 h.2

end ManifestEntry

namespace Manifest

variable {m : Manifest} {before rest : List ManifestEntry}

/-- Checks the entries left after those of `before`, where each is compared with the earlier
ones in some order. -/
def checkIn (order : List ManifestEntry → List ManifestEntry) (before : List ManifestEntry) :
    List ManifestEntry → Except ManifestError Unit
  | [] => .ok ()
  | e :: rest => do
    e.check (order before) before.length
    checkIn order (before ++ [e]) rest

theorem checkIn_id (before rest : List ManifestEntry) :
    checkIn id before rest = checkFrom before rest := by
  induction rest generalizing before with
  | nil => rfl
  | cons e rest ih => simp only [checkIn, checkFrom, ih, id_eq]

/-- **In whatever order the earlier entries are compared,** the entries left are accepted if
they are well formed and apart from each other and from those. -/
theorem checkIn_ok_iff {order : List ManifestEntry → List ManifestEntry}
    (horder : ∀ l, (order l).Perm l) : checkIn order before rest = .ok () ↔
      (∀ e ∈ rest, e.WellFormed ∧ ∀ b ∈ before, ManifestEntry.Apart b e) ∧
        rest.Pairwise ManifestEntry.Apart := by
  induction rest generalizing before with
  | nil => simp [checkIn]
  | cons e rest ih =>
    have hstep : checkIn order before (e :: rest) = .ok () ↔
        e.check (order before) before.length = .ok () ∧
          checkIn order (before ++ [e]) rest = .ok () := by
      rw [checkIn]
      cases e.check (order before) before.length with
      | error f => simp [bind, Except.bind]
      | ok u => simp [bind, Except.bind]
    rw [hstep, ManifestEntry.check_ok_iff, ih]
    simp only [(horder before).mem_iff, List.mem_append, List.mem_singleton, List.forall_mem_cons,
      List.pairwise_cons]
    constructor
    · rintro ⟨he, hrest, hpair⟩
      exact ⟨⟨he, fun x hx => ⟨(hrest x hx).1, fun b hb => (hrest x hx).2 b (.inl hb)⟩⟩,
        fun x hx => (hrest x hx).2 e (.inr rfl), hpair⟩
    · rintro ⟨⟨he, hrest⟩, hfirst, hpair⟩
      refine ⟨he, fun x hx => ⟨(hrest x hx).1, ?_⟩, hpair⟩
      rintro b (hb | rfl)
      · exact (hrest x hx).2 b hb
      · exact hfirst x hx

/-- **A manifest is valid** if its entries are well formed and apart from each other. -/
theorem validate_ok_iff : m.validate = .ok () ↔
    (∀ e ∈ m.entries, e.WellFormed) ∧ m.entries.Pairwise ManifestEntry.Apart := by
  rw [validate, ← checkIn_id, @checkIn_ok_iff _ _ id fun _ => List.Perm.refl _]
  simp

end Manifest
end Moniker
