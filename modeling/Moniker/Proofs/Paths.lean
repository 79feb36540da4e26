/-
# Paths below a root

A path is its segments joined by slashes (`Path.segments_join`).  Walking on from a clean
path along more segments goes up as far as they climb and then down what they go down
(`Path.cleanSegments_append`).  So where a path joined to a root ends is told by two
numbers of it, how far it climbs and what it goes down from there
(`Path.inside_joinRoot_iff`).

Cleaning a path and making one relative to another write nothing that was not in them, slashes
and dots apart (`Path.mem_clean`, `Path.mem_relative`).
-/

import Moniker.Path
import Moniker.Proofs.Pieces

namespace Moniker

namespace Path

variable {p q root rel s : String} {segs more R P D : List String} {rooted : Bool} {c : Char}

/-! ### Segments -/

theorem segments_ne_nil (p : String) : segments p ≠ [] := Text.split_ne_nil '/' p

/-- **A path is its segments with slashes between them.** -/
theorem join_segments (p : String) : Text.join "/" (segments p) = p := Text.join_split rfl p

/-- **Joined by slashes, segments can be told apart again,** if none has a slash in it. -/
theorem segments_join (hne : segs ≠ []) (h : ∀ s ∈ segs, '/' ∉ s.toList) :
    segments (Text.join "/" segs) = segs := Text.split_join rfl hne h

theorem segments_append_slash (p q : String) :
    segments (p ++ "/" ++ q) = segments p ++ segments q := Text.split_append rfl p q

theorem join_append (hR : R ≠ []) (hD : D ≠ []) :
    Text.join "/" (R ++ D) = Text.join "/" R ++ "/" ++ Text.join "/" D := by
  induction R with
  | nil => exact absurd rfl hR
  | cons r R ih =>
    cases R with
    | nil =>
      cases D with
      | nil => exact absurd rfl hD
      | cons d D => simp [Text.join, String.intercalate_cons_cons]
    | cons r' R =>
      have hrest := ih (List.cons_ne_nil _ _)
      simp only [Text.join, List.cons_append, String.intercalate_cons_cons] at hrest ⊢
      rw [hrest]
      simp only [String.append_assoc]

theorem mem_join (hc : c ∈ (Text.join "/" segs).toList) : c = '/' ∨ ∃ s ∈ segs, c ∈ s.toList :=
  (Text.mem_join hc).imp_left List.mem_singleton.mp

theorem mem_join_of_mem (hs : s ∈ segs) (hc : c ∈ s.toList) : c ∈ (Text.join "/" segs).toList := by
  induction segs with
  | nil => exact nomatch hs
  | cons t segs ih =>
    cases segs with
    | nil =>
      rw [List.mem_singleton] at hs
      simpa [Text.join, ← hs] using hc
    | cons t' segs =>
      rw [Text.join, String.intercalate_cons_cons]
      simp only [String.toList_append, List.mem_append]
      rcases List.mem_cons.mp hs with rfl | hs
      · exact .inl (.inl hc)
      · exact .inr (ih hs)

theorem mem_of_mem_segments (hs : s ∈ segments p) (hc : c ∈ s.toList) : c ∈ p.toList := by
  have h := mem_join_of_mem hs hc
  rwa [join_segments] at h

theorem slash_not_mem_of_mem_segments (hs : s ∈ segments p) : '/' ∉ s.toList :=
  Text.not_mem_of_mem_split hs

/-- **A path goes on from another at a slash** just when its segments go on from the
other's. -/
theorem startsIn_slash_iff :
    Text.startsIn q (p ++ "/") = true ↔ ∃ more, more ≠ [] ∧ segments q = segments p ++ more := by
  rw [Text.startsIn, List.isPrefixOf_iff_prefix]
  constructor
  · rintro ⟨rest, hrest⟩
    have hq : q = p ++ "/" ++ String.ofList rest :=
      String.toList_injective (by simp [← hrest])
    rw [hq, segments_append_slash]
    exact ⟨_, segments_ne_nil _, rfl⟩
  · rintro ⟨more, hne, hsegs⟩
    have hq : q = p ++ "/" ++ Text.join "/" more := by
      rw [← join_segments q, hsegs, join_append (segments_ne_nil p) hne, join_segments]
    rw [hq, String.toList_append (s := p ++ "/")]
    exact List.prefix_append _ _

theorem isAbsolute_eq_startsIn (p : String) : isAbsolute p = Text.startsIn p ("" ++ "/") := by
  have hslash : ("" ++ "/" : String).toList = ['/'] := rfl
  rw [isAbsolute, Text.startsIn, hslash]
  cases p.toList with
  | nil => rfl
  | cons c cs =>
    by_cases h : c = '/'
    · subst h
      rfl
    · have hne : ('/' == c) = false := beq_eq_false_iff_ne.mpr (Ne.symm h)
      simp [h, hne, List.isPrefixOf]

theorem segments_empty : segments "" = [""] := rfl

theorem isAbsolute_iff : isAbsolute p = true ↔ ∃ more, more ≠ [] ∧ segments p = "" :: more := by
  rw [isAbsolute_eq_startsIn, startsIn_slash_iff, segments_empty]
  rfl

/-! ### Walks

What the segments of a path do, wherever one stands: they lead up, and down from there.
-/

/-- A walk: how many directories it leads up, and the names it leads down from there, the
last one first. -/
structure Walk where
  up : Nat
  down : List String

/-- One more segment of a walk. -/
def Walk.step (w : Walk) (segment : String) : Walk :=
  if segment = "" ∨ segment = "." then w
  else if segment = ".." then
    match w.down with
    | [] => { w with up := w.up + 1 }
    | _ :: rest => { w with down := rest }
  else { w with down := segment :: w.down }

/-- The walk along segments. -/
def walk (segs : List String) : Walk := segs.foldl Walk.step ⟨0, []⟩

/-- How far up a path leads. -/
def climb (p : String) : Nat := (walk (segments p)).up

/-- The names a path leads down, from where it has led up to. -/
def descent (p : String) : List String := (walk (segments p)).down.reverse

/-- Is the segment the name of a file or directory? -/
structure Plain (s : String) : Prop where
  nonempty : s ≠ ""
  notHere : s ≠ "."
  notUp : s ≠ ".."
  noSlash : '/' ∉ s.toList

theorem push_plain (h : Plain s) (done : List String) : push rooted done s = s :: done := by
  rw [push.eq_def, if_neg (fun hs => hs.elim h.nonempty h.notHere), if_neg h.notUp]

theorem foldl_push_plain (h : ∀ s ∈ segs, Plain s) (done : List String) :
    segs.foldl (push rooted) done = segs.reverse ++ done := by
  induction segs generalizing done with
  | nil => rfl
  | cons s segs ih =>
    rw [List.foldl_cons, push_plain (h s List.mem_cons_self),
      ih fun t ht => h t (List.mem_cons_of_mem _ ht)]
    simp

theorem cleanSegments_plain (h : ∀ s ∈ segs, Plain s) : cleanSegments rooted segs = segs := by
  rw [cleanSegments, foldl_push_plain h, List.append_nil, List.reverse_reverse]

/-- Empty segments lead nowhere. -/
theorem foldl_push_filter (segs done : List String) :
    (segs.filter (· ≠ "")).foldl (push rooted) done = segs.foldl (push rooted) done := by
  induction segs generalizing done with
  | nil => rfl
  | cons s segs ih =>
    by_cases h : s = ""
    · have hpush : push rooted done s = done := if_pos (.inl h)
      rw [List.filter_cons_of_neg (by simp [h]), ih, List.foldl_cons, hpush]
    · rw [List.filter_cons_of_pos (by simp [h]), List.foldl_cons, ih, List.foldl_cons]

theorem Walk.step_down (h : '/' ∉ s.toList) {w : Walk} (hw : ∀ t ∈ w.down, Plain t) :
    ∀ t ∈ (w.step s).down, Plain t := by
  unfold Walk.step
  split
  · exact hw
  · rename_i hs
    split
    · cases hd : w.down with
      | nil => simp
      | cons last rest => exact fun t ht => hw t (hd ▸ List.mem_cons_of_mem _ ht)
    · rename_i hup
      intro t ht
      rcases List.mem_cons.mp ht with rfl | ht
      · exact ⟨fun h => hs (.inl h), fun h => hs (.inr h), hup, h⟩
      · exact hw t ht

theorem Walk.foldl_down (h : ∀ s ∈ segs, '/' ∉ s.toList) {w : Walk} (hw : ∀ t ∈ w.down, Plain t) :
    ∀ t ∈ (segs.foldl Walk.step w).down, Plain t := by
  induction segs generalizing w with
  | nil => exact hw
  | cons s segs ih =>
    exact ih (fun t ht => h t (List.mem_cons_of_mem _ ht))
      (Walk.step_down (h s List.mem_cons_self) hw)

/-- A path leads down by names only. -/
theorem plain_of_mem_descent (hs : s ∈ descent p) : Plain s :=
  Walk.foldl_down (fun _ => slash_not_mem_of_mem_segments) (by simp) s (List.mem_reverse.mp hs)

/-- Walking in the air: each step up that finds nothing to undo is kept as `..`. -/
theorem Walk.push_false_step {w : Walk} (hw : ".." ∉ w.down) (s : String) :
    push false (w.down ++ List.replicate w.up "..") s =
      (w.step s).down ++ List.replicate (w.step s).up ".." := by
  unfold push Walk.step
  split
  · rfl
  · split
    · cases hd : w.down with
      | nil => cases w.up <;> simp [List.replicate_succ]
      | cons last rest =>
        have hlast : last ≠ ".." := fun h => hw (hd ▸ h ▸ List.mem_cons_self)
        simp [hlast]
    · rfl

/-- Walking from a directory: each step up that finds nothing to undo leaves one more of
the names of the directory. -/
theorem Walk.push_true_step {w : Walk} (hw : ".." ∉ w.down) (hR : ".." ∉ R) (s : String) :
    push true (w.down ++ R.drop w.up) s = (w.step s).down ++ R.drop (w.step s).up := by
  unfold push Walk.step
  split
  · rfl
  · split
    · cases hd : w.down with
      | nil =>
        cases hr : R.drop w.up with
        | nil =>
          have hlen := List.drop_eq_nil_iff.mp hr
          simp [List.drop_eq_nil_iff.mpr (Nat.le_succ_of_le hlen)]
        | cons last rest =>
          have hlast : last ≠ ".." := by
            rintro rfl
            exact hR (List.mem_of_mem_drop (hr ▸ List.mem_cons_self))
          have hrest : R.drop (w.up + 1) = rest := by rw [← List.tail_drop, hr, List.tail_cons]
          simp [hlast, hrest]
      | cons last rest =>
        have hlast : last ≠ ".." := fun h => hw (hd ▸ h ▸ List.mem_cons_self)
        simp [hlast]
    · rfl

theorem notUp_of_plain (h : ∀ s ∈ segs, Plain s) : ".." ∉ segs := fun hs => (h _ hs).notUp rfl

/-- A stack keeps step with a walk if it does so at each segment. -/
theorem Walk.foldl_push (stack : Walk → List String)
    (hstep : ∀ w s, (∀ t ∈ w.down, Plain t) → push rooted (stack w) s = stack (w.step s))
    (h : ∀ s ∈ segs, '/' ∉ s.toList) {w : Walk} (hw : ∀ t ∈ w.down, Plain t) :
    segs.foldl (push rooted) (stack w) = stack (segs.foldl Walk.step w) := by
  induction segs generalizing w with
  | nil => rfl
  | cons s segs ih =>
    rw [List.foldl_cons, hstep w s hw, List.foldl_cons]
    exact ih (fun t ht => h t (List.mem_cons_of_mem _ ht))
      (Walk.step_down (h s List.mem_cons_self) hw)

/-- **The clean form of a relative path** is what it leads up and then down. -/
theorem cleanSegments_segments (p : String) :
    cleanSegments false (segments p) = List.replicate (climb p) ".." ++ descent p := by
  have h := @Walk.foldl_push (segments p) false (fun w => w.down ++ List.replicate w.up "..")
    (fun _ s hw => Walk.push_false_step (notUp_of_plain hw) s)
    (fun _ => slash_not_mem_of_mem_segments) ⟨0, []⟩ (by simp)
  simp only [List.replicate_zero, List.append_nil] at h
  rw [cleanSegments, h, List.reverse_append, List.reverse_replicate]
  rfl

/-- **From a directory, a path leads away from the names it climbs over** and down by its
own. -/
theorem cleanSegments_append (hR : ∀ s ∈ R, Plain s) (hroot : cleanSegments true segs = R)
    (p : String) :
    cleanSegments true (segs ++ segments p) = R.take (R.length - climb p) ++ descent p := by
  have hdone : segs.foldl (push true) [] = R.reverse := by
    rw [← hroot, cleanSegments, List.reverse_reverse]
  have hup : ".." ∉ R.reverse := fun h => notUp_of_plain hR (List.mem_reverse.mp h)
  have h := @Walk.foldl_push (segments p) true (fun w => w.down ++ R.reverse.drop w.up)
    (fun _ s hw => Walk.push_true_step (notUp_of_plain hw) hup s)
    (fun _ => slash_not_mem_of_mem_segments) ⟨0, []⟩ (by simp)
  simp only [List.drop_zero, List.nil_append] at h
  rw [cleanSegments, List.foldl_append, hdone, h, List.reverse_append, List.drop_reverse,
    List.reverse_reverse]
  rfl

/-! ### Clean paths -/

/-- The names on the way to an absolute path. -/
def names (p : String) : List String := cleanSegments true (segments p)

theorem plain_of_mem_names (hs : s ∈ names p) : Plain s := by
  have h := @cleanSegments_append [] [] (by simp) rfl p
  rw [List.nil_append, List.take_nil, List.nil_append] at h
  rw [names, h] at hs
  exact plain_of_mem_descent hs

theorem clean_of_isAbsolute (h : isAbsolute p = true) : clean p = render true (names p) := by
  rw [clean, h, names]

theorem clean_of_not_isAbsolute (h : isAbsolute p = false) :
    clean p = render false (List.replicate (climb p) ".." ++ descent p) := by
  rw [clean, h, cleanSegments_segments]

theorem isAbsolute_render (segs : List String) : isAbsolute (render true segs) = true := by
  have hroot : (render true segs).toList = '/' :: (Text.join "/" segs).toList := by simp [render]
  simp only [isAbsolute, hroot]

theorem segments_render (hne : segs ≠ []) (h : ∀ s ∈ segs, '/' ∉ s.toList) :
    segments (render true segs) = "" :: segs := by
  have hroot : render true segs = "" ++ "/" ++ Text.join "/" segs := rfl
  rw [hroot, segments_append_slash, segments_join hne h, segments_empty]
  rfl

theorem names_render (h : ∀ s ∈ segs, Plain s) : names (render true segs) = segs := by
  by_cases hne : segs = []
  · subst hne
    rfl
  · rw [names, segments_render hne fun s hs => (h s hs).noSlash]
    exact cleanSegments_plain h

/-- Cleaning a clean absolute path changes nothing. -/
theorem clean_render (h : ∀ s ∈ segs, Plain s) : clean (render true segs) = render true segs := by
  rw [clean_of_isAbsolute (isAbsolute_render _), names_render h]

theorem ne_empty_of_isAbsolute (h : isAbsolute p = true) : p ≠ "" := by
  rintro rfl
  exact Bool.false_ne_true h

/-- A path leads up first just when it is `..` or goes on from it. -/
theorem head_segments_up :
    (segments q).head? = some ".." ↔ q = ".." ∨ Text.startsIn q "../" = true := by
  have hup : segments ".." = [".."] := by decide
  have hslash : (".." ++ "/" : String) = "../" := rfl
  rw [← hslash, startsIn_slash_iff, hup]
  constructor
  · intro h
    obtain ⟨more, hmore⟩ : ∃ more, segments q = ".." :: more := List.head?_eq_some_iff.mp h
    by_cases hne : more = []
    · left
      rw [← join_segments q, hmore, hne, ← hup, join_segments]
    · exact .inr ⟨more, hne, hmore⟩
  · rintro (rfl | ⟨more, -, hq⟩)
    · rw [hup]
      rfl
    · rw [hq]
      rfl

theorem isAbsolute_of_head (h : (segments q).head? = some s) (hs : s ≠ "") :
    isAbsolute q = false := by
  rw [Bool.eq_false_iff]
  intro habs
  obtain ⟨more, -, hq⟩ := isAbsolute_iff.mp habs
  rw [hq, List.head?_cons, Option.some.injEq] at h
  exact hs h.symm

/-- What is written from a root it does not climb over begins in no `..`. -/
theorem within_of_head (h : (segments q).head? = some s) (hs : s ≠ "") :
    (q ≠ ".." && !Text.startsIn q "../" && !isAbsolute q) = true ↔ s ≠ ".." := by
  have hup := head_segments_up (q := q)
  rw [h, Option.some.injEq] at hup
  simp [isAbsolute_of_head h hs, hup]

theorem segments_render_relative (hne : segs ≠ []) (h : ∀ s ∈ segs, '/' ∉ s.toList) :
    segments (render false segs) = segs := by
  have hrender : render false segs = Text.join "/" segs := by
    cases segs with
    | nil => exact absurd rfl hne
    | cons s segs => rfl
  rw [hrender, segments_join hne h]

/-- **A relative path stays below the root** just when it climbs nowhere. -/
theorem within_iff : within p = true ↔ isAbsolute p = false ∧ climb p = 0 := by
  rw [within]
  cases habs : isAbsolute p with
  | true =>
    rw [clean_of_isAbsolute habs, isAbsolute_render]
    simp
  | false =>
    have hnoSlash : ∀ s ∈ List.replicate (climb p) ".." ++ descent p, '/' ∉ s.toList := by
      intro s hs
      rcases List.mem_append.mp hs with hs | hs
      · rw [(List.mem_replicate.mp hs).2]
        decide
      · exact (plain_of_mem_descent hs).noSlash
    rw [clean_of_not_isAbsolute habs]
    cases hk : climb p with
    | zero =>
      cases hd : descent p with
      | nil => decide
      | cons d ds =>
        have hplain : Plain d := plain_of_mem_descent (hd ▸ List.mem_cons_self)
        rw [hk, hd] at hnoSlash
        have hsegs := segments_render_relative (List.cons_ne_nil d ds) hnoSlash
        simp only [List.replicate_zero, List.nil_append]
        rw [within_of_head (s := d) (by rw [hsegs]; rfl) hplain.nonempty]
        simp [hplain.notUp]
    | succ k =>
      rw [hk, List.replicate_succ, List.cons_append] at hnoSlash
      have hsegs := segments_render_relative (List.cons_ne_nil _ _) hnoSlash
      simp only [List.replicate_succ, List.cons_append]
      rw [within_of_head (s := "..") (by rw [hsegs]; rfl) (by decide)]
      simp

/-! ### Joining to a root -/

/-- Does the path `p` lie in the directory `root`? It is `root` itself or goes on from it at
a slash; everything lies in the top of the file system. -/
def Inside (root p : String) : Prop :=
  p = root ∨ root = "/" ∨ Text.startsIn p (root ++ "/") = true

instance (root p : String) : Decidable (Inside root p) := by
  unfold Inside
  infer_instance

/-- The path with its backslashes turned into slashes. -/
def slashed (p : String) : String :=
  String.ofList (p.toList.map fun c => if c = '\\' then '/' else c)

theorem slashed_of_not_mem (h : '\\' ∉ p.toList) : slashed p = p := by
  have hmap : (p.toList.map fun c => if c = '\\' then '/' else c) = p.toList.map id :=
    List.map_congr_left fun c hc => if_neg fun (hback : c = '\\') => h (hback ▸ hc)
  rw [slashed, hmap, List.map_id, String.ofList_toList]

theorem segments_join_cons (h : ∀ s ∈ more, '/' ∉ s.toList) :
    segments (Text.join "/" (p :: more)) = segments p ++ more := by
  by_cases hne : more = []
  · subst hne
    simp [Text.join]
  · have hjoin := join_append (R := [p]) (List.cons_ne_nil _ _) hne
    have hp : Text.join "/" [p] = p := by simp [Text.join]
    rw [List.singleton_append, hp] at hjoin
    rw [hjoin, segments_append_slash, segments_join hne h]

theorem join_cons (hp : p ≠ "") (more : List String) :
    join (p :: more) = clean (Text.join "/" (p :: more.filter (· ≠ ""))) := by
  unfold join
  simp [hp]

/-- The names on the way to where a path leads from a root, its backslashes counted as
slashes. -/
def landing (root rel : String) : List String :=
  (names root).take ((names root).length - climb (slashed rel)) ++ descent (slashed rel)

theorem plain_of_mem_landing (hs : s ∈ landing root rel) : Plain s := by
  rcases List.mem_append.mp hs with hs | hs
  · exact plain_of_mem_names (List.mem_of_mem_take hs)
  · exact plain_of_mem_descent hs

/-- **A path joined to a root is walked from there.** -/
theorem joinRoot_eq (hroot : isAbsolute root = true) :
    joinRoot root rel = render true (landing root rel) := by
  have hjoin : joinRoot root rel =
      clean (Text.join "/" (root :: (segments (slashed rel)).filter (· ≠ ""))) :=
    join_cons (ne_empty_of_isAbsolute hroot) _
  have hsegs : segments (Text.join "/" (root :: (segments (slashed rel)).filter (· ≠ ""))) =
      segments root ++ (segments (slashed rel)).filter (· ≠ "") :=
    segments_join_cons fun s hs => slash_not_mem_of_mem_segments (List.mem_filter.mp hs).1
  have habs : isAbsolute (Text.join "/" (root :: (segments (slashed rel)).filter (· ≠ ""))) =
      true := by
    obtain ⟨more, hmore, h⟩ := isAbsolute_iff.mp hroot
    rw [isAbsolute_iff, hsegs, h]
    exact ⟨_, List.append_ne_nil_of_left_ne_nil hmore _, rfl⟩
  have hwalk : cleanSegments true (segments root ++ (segments (slashed rel)).filter (· ≠ "")) =
      cleanSegments true (segments root ++ segments (slashed rel)) := by
    rw [cleanSegments, cleanSegments, List.foldl_append, foldl_push_filter, List.foldl_append]
  rw [hjoin, clean_of_isAbsolute habs, names, hsegs, hwalk,
    cleanSegments_append (fun s => plain_of_mem_names) rfl, landing, names]

theorem render_inj (hR : ∀ s ∈ R, Plain s) (hP : ∀ s ∈ P, Plain s) :
    render true P = render true R ↔ P = R := by
  constructor
  · intro h
    rw [← names_render hP, h, names_render hR]
  · rintro rfl
    rfl

/-- **Clean paths lie in each other** just when the names on the way to them go on. -/
theorem inside_render_iff (hR : ∀ s ∈ R, Plain s) (hP : ∀ s ∈ P, Plain s) :
    Inside (render true R) (render true P) ↔ R <+: P := by
  have htop : render true R = "/" ↔ R = [] := render_inj (R := []) (by simp) hR
  rw [Inside, render_inj hR hP, htop, startsIn_slash_iff]
  constructor
  · rintro (rfl | rfl | ⟨more, hmore, hsegs⟩)
    · exact List.prefix_rfl
    · exact List.nil_prefix
    · by_cases hnil : R = []
      · exact hnil ▸ List.nil_prefix
      · rw [segments_render hnil fun s hs => (hR s hs).noSlash] at hsegs
        by_cases hP' : P = []
        · have hlen := congrArg List.length hsegs
          have h₁ := List.length_pos_iff.mpr hnil
          have h₂ := List.length_pos_iff.mpr hmore
          rw [hP', show segments (render true []) = ["", ""] by decide] at hlen
          simp only [List.length_cons, List.length_append, List.length_nil] at hlen
          omega
        · rw [segments_render hP' fun s hs => (hP s hs).noSlash] at hsegs
          exact ⟨more, (List.cons.inj hsegs).2.symm⟩
  · rintro ⟨more, rfl⟩
    by_cases hmore : more = []
    · exact .inl (by rw [hmore, List.append_nil])
    · by_cases hnil : R = []
      · exact .inr (.inl hnil)
      · refine .inr (.inr ⟨more, hmore, ?_⟩)
        rw [segments_render hnil fun s hs => (hR s hs).noSlash,
          segments_render (by simp [hnil]) fun s hs => (hP s hs).noSlash]
        rfl

/-- **Where a path joined to a root ends:** inside the root just when it comes back down by
the names it has climbed over. -/
theorem inside_joinRoot_iff (hroot : isAbsolute root = true) (hclean : clean root = root) :
    Inside root (joinRoot root rel) ↔
      (names root).drop ((names root).length - climb (slashed rel)) <+: descent (slashed rel) := by
  have hrender : render true (names root) = root := by rw [← clean_of_isAbsolute hroot, hclean]
  have h := inside_render_iff (fun s => plain_of_mem_names (p := root))
    (fun s hs => @plain_of_mem_landing root rel s hs)
  rw [hrender, ← joinRoot_eq hroot] at h
  rw [h, landing]
  generalize (names root).length - climb (slashed rel) = k
  have hdrop : (names root).take k ++ (names root).drop k <+:
      (names root).take k ++ descent (slashed rel) ↔
        (names root).drop k <+: descent (slashed rel) := List.prefix_append_right_inj _
  rwa [List.take_append_drop] at hdrop

/-! ### What paths are written with -/

theorem mem_cleanSegments (hs : s ∈ cleanSegments rooted segs) : s = ".." ∨ s ∈ segs := by
  rw [cleanSegments, List.mem_reverse] at hs
  have hpush (done : List String) (t : String) (h : s ∈ push rooted done t) :
      s = ".." ∨ s = t ∨ s ∈ done := by
    unfold push at h
    split at h
    · exact .inr (.inr h)
    · split at h
      · split at h
        · split at h
          · exact nomatch h
          · exact .inl (List.mem_singleton.mp h)
        · split at h
          · exact (List.mem_cons.mp h).imp_right .inr
          · exact .inr (.inr (List.mem_cons_of_mem _ h))
      · exact .inr (List.mem_cons.mp h)
  have hfold : ∀ (ts done : List String), s ∈ ts.foldl (push rooted) done →
      s = ".." ∨ s ∈ ts ∨ s ∈ done := by
    intro ts
    induction ts with
    | nil => exact fun _ h => .inr (.inr h)
    | cons t ts ih =>
      intro done h
      rcases ih _ h with h | h | h
      · exact .inl h
      · exact .inr (.inl (List.mem_cons_of_mem _ h))
      · rcases hpush done t h with h | rfl | h
        · exact .inl h
        · exact .inr (.inl List.mem_cons_self)
        · exact .inr (.inr h)
  rcases hfold _ _ hs with h | h | h
  · exact .inl h
  · exact .inr h
  · exact nomatch h

/-- Characters that every path may be written with. -/
def Structural (c : Char) : Prop := c = '/' ∨ c = '.'

theorem structural_of_mem_up (h : c ∈ "..".toList) : Structural c := by
  have hc : c = '.' := by simpa using h
  exact .inr hc

theorem mem_clean (hc : c ∈ (clean p).toList) : Structural c ∨ c ∈ p.toList := by
  have hjoin (h : c ∈ (Text.join "/" (cleanSegments (isAbsolute p) (segments p))).toList) :
      Structural c ∨ c ∈ p.toList := by
    rcases mem_join h with rfl | ⟨s, hs, hcs⟩
    · exact .inl (.inl rfl)
    · rcases mem_cleanSegments hs with rfl | hs
      · exact .inl (structural_of_mem_up hcs)
      · exact .inr (mem_of_mem_segments hs hcs)
  rw [clean, render] at hc
  split at hc
  · rw [String.toList_append, List.mem_append] at hc
    rcases hc with hc | hc
    · exact .inl (.inl (by simpa using hc))
    · exact hjoin hc
  · split at hc
    · exact .inl (.inr (by simpa using hc))
    · exact hjoin hc

theorem mem_dropCommon (hs : s ∈ (dropCommon R D).2) : s ∈ D := by
  fun_induction dropCommon R D with
  | case1 a R D ih => exact List.mem_cons_of_mem _ (ih hs)
  | case2 => exact hs
  | case3 => exact hs

theorem mem_writtenSegments (hs : s ∈ writtenSegments p) (hc : c ∈ s.toList) :
    Structural c ∨ c ∈ p.toList := by
  unfold writtenSegments at hs
  dsimp only at hs
  split at hs
  · rw [List.mem_singleton] at hs
    subst hs
    exact .inl (.inr (by simpa using hc))
  · rcases mem_cleanSegments hs with rfl | hs
    · exact .inl (structural_of_mem_up hc)
    · exact .inr (mem_of_mem_segments hs hc)

theorem mem_relative (h : relative? root p = some rel) (hc : c ∈ rel.toList) :
    Structural c ∨ c ∈ p.toList := by
  unfold relative? at h
  split at h
  · obtain rfl := Option.some.inj h
    exact .inl (.inr (by simpa using hc))
  · split at h
    · exact nomatch h
    · dsimp only at h
      split at h
      · exact nomatch h
      · obtain rfl := Option.some.inj h
        rcases mem_join hc with rfl | ⟨s, hs, hcs⟩
        · exact .inl (.inl rfl)
        · rcases List.mem_append.mp hs with hs | hs
          · obtain ⟨_, -, rfl⟩ := List.mem_map.mp hs
            exact .inl (structural_of_mem_up hcs)
          · exact mem_writtenSegments (mem_dropCommon hs) hcs

end Path
end Moniker
