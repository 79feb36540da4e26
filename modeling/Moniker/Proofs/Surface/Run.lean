/-
# The public surface is a least fixed point

A run of an exploration goes phase by phase and takes item after item off its work
list (`Checker.Step`), in the order it likes.  Each item is visited once, and what it
leads to goes on the list.  The answers of a checker do not change during a run if
they are those of a checker without a state (`Checker.Follows`).

What has been visited or waits is public, and what a visited item leads to has been
visited or waits (`Checker.Inv`).  So in the end exactly the public items have been
visited, whatever the order.  A visit takes one of the public items off those not
visited, so a run ends if they are finitely many, cycles or not.

`collect?` is the run that takes the item put on the list last; it ends with the
public items, and so does every other run (`isSurface_collect`).
-/

import Moniker.Proofs.Surface.Edges
import Mathlib.Data.Set.Finite.Basic
import Mathlib.Order.WellFounded

namespace Moniker

namespace Surface

theorem contains_empty (i : Item) : ({} : Surface).contains i = false := by
  cases i with
  | symbol s => exact Std.TreeSet.contains_emptyc
  | type t => exact Std.TreeSet.contains_emptyc
  | node n => exact Std.TreeSet.contains_emptyc

theorem contains_insert (r : Surface) (i j : Item) :
    (r.insert i).contains j = true ↔ i = j ∨ r.contains j = true := by
  cases i <;> cases j <;> simp [insert, contains]

variable {next : Item → StateM σ (List Item)} {i : Item} {work : List Item} {r : Surface} {p : σ}

theorem explore_nil : explore next [] r p = some (r, p) := by
  rw [explore]
  rfl

theorem explore_cons_seen (h : r.contains i = true) :
    explore next (i :: work) r p = explore next work r p := by
  rw [explore, explore, List.dropWhile_cons_of_pos h]

theorem explore_cons_visit (h : r.contains i = false) :
    explore next (i :: work) r p =
      explore next ((next i p).1.reverse ++ work) (r.insert i) (next i p).2 := by
  rw [explore, List.dropWhile_cons_of_neg (by rw [h]; exact Bool.false_ne_true)]
  rfl

end Surface

/-- An order to work in: from a work list an item may be taken, which leaves a rest. -/
abbrev Order := List Item → Item → List Item → Prop

/-- The item put on the list last is taken first. -/
def Order.lastFirst : Order := fun work i rest => work = i :: rest

/-- Every item of the list may be taken. -/
def Order.any : Order := fun work i rest => work.Perm (i :: rest)

theorem Order.lastFirst_le_any : Order.lastFirst ≤ Order.any := by
  rintro work i rest rfl
  exact .refl _

/-- Where an exploration stands: the phases begun, the items that wait, what has been
visited, and the state of the checker. -/
structure Moment (σ : Type) where
  begun : Nat
  work : List Item
  surface : Surface
  state : σ

/-- A moment without the state of the checker. -/
def Moment.forget (m : Moment σ) : Moment Unit := ⟨m.begun, m.work, m.surface, ()⟩

namespace Checker

variable {c : Checker σ} {a : Checker Unit} {files : List FileId} {opts : SurfaceOptions}
  {order : Order} {p : σ} {m m' : Moment σ} {u u' : Moment Unit} {i j : Item}

/-- One step of an exploration: it begins a phase, leaves out an item that has been
visited, or visits an item. -/
inductive Step (c : Checker σ) (files : List FileId) (opts : SurfaceOptions) (order : Order) :
    Moment σ → Moment σ → Prop
  | begin_ {k phase r p} : (c.phases files opts)[k]? = some phase →
      Step c files opts order ⟨k, [], r, p⟩ ⟨k + 1, (phase p).reverse, r, p⟩
  | seen {k work i rest r p} : order work i rest → r.contains i = true →
      Step c files opts order ⟨k, work, r, p⟩ ⟨k, rest, r, p⟩
  | visit {k work i rest r p} : order work i rest → r.contains i = false →
      Step c files opts order ⟨k, work, r, p⟩
        ⟨k, (c.next opts.privateMembersInternal i p).1.reverse ++ rest, r.insert i,
          (c.next opts.privateMembersInternal i p).2⟩

/-- The steps of an exploration so far. -/
def Steps (c : Checker σ) (files : List FileId) (opts : SurfaceOptions) (order : Order) :
    Moment σ → Moment σ → Prop :=
  Relation.ReflTransGen (c.Step files opts order)

/-- Nothing has been explored yet. -/
def start (p : σ) : Moment σ := ⟨0, [], {}, p⟩

/-- All phases are through. -/
def Finished (c : Checker σ) (files : List FileId) (opts : SurfaceOptions) (m : Moment σ) : Prop :=
  m.work = [] ∧ (c.phases files opts).length ≤ m.begun

/-- The answers of the checker do not change during the run: what a phase starts from
and what a visited item leads to is what the checker without a state says. -/
structure Follows (c : Checker σ) (a : Checker Unit) (files : List FileId) (opts : SurfaceOptions)
    (order : Order) (p : σ) : Prop where
  phase : ∀ {k r q phase phase'}, c.Steps files opts order (start p) ⟨k, [], r, q⟩ →
    (c.phases files opts)[k]? = some phase → (a.phases files opts)[k]? = some phase' →
      phase q = phase' ()
  visit : ∀ {k work i rest r q}, c.Steps files opts order (start p) ⟨k, work, r, q⟩ →
    order work i rest → r.contains i = false →
      (c.next opts.privateMembersInternal i q).1 = (a.next opts.privateMembersInternal i ()).1

/-! ### Runs of a checker without a state -/

/-- What has been visited or waits is public, and nothing that leads on is missing. -/
structure Inv (a : Checker Unit) (files : List FileId) (opts : SurfaceOptions)
    (u : Moment Unit) : Prop where
  sound : ∀ i, i ∈ u.work ∨ u.surface.contains i = true → a.Public files opts i
  closed : ∀ i, u.surface.contains i = true → ∀ j, a.Leads opts.privateMembersInternal i j →
    j ∈ u.work ∨ u.surface.contains j = true
  roots : ∀ k < u.begun, ∀ phase, (a.phases files opts)[k]? = some phase → ∀ i ∈ phase (),
    i ∈ u.work ∨ u.surface.contains i = true

theorem Inv.start : a.Inv files opts (start ()) where
  sound i h := by
    rcases h with h | h
    · exact nomatch h
    · exact absurd ((Surface.contains_empty i).symm.trans h) Bool.false_ne_true
  closed i h := absurd ((Surface.contains_empty i).symm.trans h) Bool.false_ne_true
  roots k hk := absurd hk (Nat.not_lt_zero k)

/-- What a step finds on the list or visited, it leaves there. -/
theorem Step.kept (hle : order ≤ Order.any) (h : c.Step files opts order m m')
    (hi : i ∈ m.work ∨ m.surface.contains i = true) :
    i ∈ m'.work ∨ m'.surface.contains i = true := by
  cases h with
  | begin_ _ => exact .inr (hi.resolve_left List.not_mem_nil)
  | @seen _ _ j _ _ _ htake hseen =>
    rcases hi with hi | hi
    · rcases List.mem_cons.mp ((hle _ _ _ htake).mem_iff.mp hi) with rfl | hi
      · exact .inr hseen
      · exact .inl hi
    · exact .inr hi
  | @visit _ _ j _ _ _ htake hnew =>
    rcases hi with hi | hi
    · rcases List.mem_cons.mp ((hle _ _ _ htake).mem_iff.mp hi) with rfl | hi
      · exact .inr ((Surface.contains_insert _ _ _).mpr (.inl rfl))
      · exact .inl (List.mem_append_right _ hi)
    · exact .inr ((Surface.contains_insert _ _ _).mpr (.inr hi))

/-- **A step keeps the work list and what has been visited complete and public.** -/
theorem Inv.step (hle : order ≤ Order.any) (hinv : a.Inv files opts u)
    (h : a.Step files opts order u u') : a.Inv files opts u' where
  sound i hi := by
    cases h with
    | begin_ hphase =>
      rcases hi with hi | hi
      · refine (exists_mem_phases.mp ⟨_, ?_, List.mem_reverse.mp hi⟩).public
        exact List.mem_of_getElem? hphase
      · exact hinv.sound i (.inr hi)
    | seen htake _ =>
      rcases hi with hi | hi
      · exact hinv.sound i (.inl ((hle _ _ _ htake).mem_iff.mpr (List.mem_cons_of_mem _ hi)))
      · exact hinv.sound i (.inr hi)
    | visit htake _ =>
      have hmem {i : Item} (hi : i ∈ _) := hinv.sound i (.inl ((hle _ _ _ htake).mem_iff.mpr hi))
      rcases hi with hi | hi
      · rcases List.mem_append.mp hi with hi | hi
        · exact (hmem List.mem_cons_self).leads (mem_next.mp (List.mem_reverse.mp hi))
        · exact hmem (List.mem_cons_of_mem _ hi)
      · rcases (Surface.contains_insert _ _ _).mp hi with rfl | hi
        · exact hmem List.mem_cons_self
        · exact hinv.sound i (.inr hi)
  closed i hi j hleads := by
    have hold (hi : u.surface.contains i = true) := h.kept hle (hinv.closed i hi j hleads)
    cases h with
    | begin_ _ => exact hold hi
    | seen _ _ => exact hold hi
    | visit _ _ =>
      rcases (Surface.contains_insert _ _ _).mp hi with rfl | hi
      · exact .inl (List.mem_append_left _ (List.mem_reverse.mpr (mem_next.mpr hleads)))
      · exact hold hi
  roots k hk phase hphase i hi := by
    have hold (hk : k < u.begun) := h.kept hle (hinv.roots k hk phase hphase i hi)
    cases h with
    | @begin_ n phase' _ _ hphase' =>
      rcases Nat.lt_succ_iff_lt_or_eq.mp hk with hk | rfl
      · exact hold hk
      · obtain rfl := Option.some.inj (hphase.symm.trans hphase')
        exact .inl (List.mem_reverse.mpr hi)
    | seen _ _ => exact hold hk
    | visit _ _ => exact hold hk

theorem Inv.steps (hle : order ≤ Order.any) (hinv : a.Inv files opts u)
    (h : a.Steps files opts order u u') : a.Inv files opts u' := by
  induction h with
  | refl => exact hinv
  | tail _ hstep ih => exact ih.step hle hstep

/-- **In the end exactly the public items have been visited.** -/
theorem Inv.contains_iff (hinv : a.Inv files opts u) (hfinished : a.Finished files opts u) :
    u.surface.contains i = true ↔ a.Public files opts i := by
  obtain ⟨hwork, hbegun⟩ := hfinished
  have hvisited {j : Item} (hj : j ∈ u.work ∨ u.surface.contains j = true) :
      u.surface.contains j = true := by
    rw [hwork] at hj
    exact hj.resolve_left List.not_mem_nil
  constructor
  · intro hi
    exact hinv.sound i (.inr hi)
  · rintro ⟨root, hroot, hpath⟩
    induction hpath with
    | refl =>
      obtain ⟨phase, hphase, hmem⟩ := exists_mem_phases.mpr hroot
      obtain ⟨k, hk, rfl⟩ := List.mem_iff_getElem.mp hphase
      exact hvisited (hinv.roots k (hk.trans_le hbegun) _ (List.getElem?_eq_getElem hk) _ hmem)
    | tail _ hleads ih => exact hvisited (hinv.closed _ ih _ hleads)

/-- The public items not visited yet. -/
noncomputable def unvisited (hfinite : {i | a.Public files opts i}.Finite) (u : Moment Unit) :
    Nat :=
  (hfinite.toFinset.filter fun i => u.surface.contains i = false).card

/-- What is left to do: phases to begin, items to visit, items that wait. -/
noncomputable def workLeft (hfinite : {i | a.Public files opts i}.Finite) (u : Moment Unit) :
    Nat × Nat × Nat :=
  ((a.phases files opts).length - u.begun, unvisited hfinite u, u.work.length)

/-- **A step leaves less to do.** -/
theorem Step.workLeft_lt (hfinite : {i | a.Public files opts i}.Finite) (hle : order ≤ Order.any)
    (hinv : a.Inv files opts u) (h : a.Step files opts order u u') :
    Prod.Lex (· < ·) (Prod.Lex (· < ·) (· < ·)) (workLeft hfinite u') (workLeft hfinite u) := by
  cases h with
  | begin_ hphase =>
    have hlt := (List.getElem?_eq_some_iff.mp hphase).1
    exact .left _ _ (by dsimp only; omega)
  | seen htake _ =>
    have hlength := (hle _ _ _ htake).length_eq
    rw [List.length_cons] at hlength
    exact .right _ (.right _ (by dsimp only; omega))
  | @visit _ _ i _ _ _ htake hnew =>
    have hpublic := hinv.sound i (.inl ((hle _ _ _ htake).mem_iff.mpr List.mem_cons_self))
    refine .right _ (.left _ _ (Finset.card_lt_card ?_))
    refine (Finset.ssubset_iff_of_subset fun j hj => ?_).mpr ⟨i, ?_, ?_⟩
    · obtain ⟨hj, hnot⟩ := Finset.mem_filter.mp hj
      refine Finset.mem_filter.mpr ⟨hj, ?_⟩
      by_contra hold
      rw [Bool.not_eq_false] at hold
      rw [(Surface.contains_insert _ _ _).mpr (.inr hold)] at hnot
      exact nomatch hnot
    · exact Finset.mem_filter.mpr ⟨hfinite.mem_toFinset.mpr hpublic, hnew⟩
    · intro hmem
      have hnot := (Finset.mem_filter.mp hmem).2
      rw [(Surface.contains_insert _ _ _).mpr (.inl rfl)] at hnot
      exact nomatch hnot

/-- **A run ends,** in whatever order and though the items lead around in circles. -/
theorem Inv.acc (hfinite : {i | a.Public files opts i}.Finite) (hle : order ≤ Order.any)
    (hinv : a.Inv files opts u) : Acc (flip (a.Step files opts order)) u := by
  have hwf : WellFounded (InvImage (Prod.Lex (· < ·) (Prod.Lex (· < ·) (· < ·)))
      (workLeft hfinite)) :=
    InvImage.wf _ (WellFounded.prod_lex wellFounded_lt
      (WellFounded.prod_lex wellFounded_lt wellFounded_lt))
  induction u using hwf.induction with
  | _ u ih => exact ⟨_, fun u' h => ih u' (h.workLeft_lt hfinite hle hinv) (hinv.step hle h)⟩

/-! ### Runs whose answers do not change -/

theorem length_phases : (c.phases files opts).length = (a.phases files opts).length := by
  simp only [phases, List.length_append, List.length_map, List.length_singleton]
  split <;> rfl

namespace Follows

/-- A step is one of the checker without a state. -/
theorem step (h : c.Follows a files opts order p) (hrun : c.Steps files opts order (start p) m)
    (hstep : c.Step files opts order m m') : a.Step files opts order m.forget m'.forget := by
  cases hstep with
  | @begin_ k phase r q hphase =>
    have hlt := (List.getElem?_eq_some_iff.mp hphase).1
    rw [length_phases (a := a)] at hlt
    have hphase' := List.getElem?_eq_getElem hlt
    unfold Moment.forget
    rw [h.phase hrun hphase hphase']
    exact .begin_ hphase'
  | seen htake hseen => exact .seen htake hseen
  | visit htake hnew =>
    unfold Moment.forget
    rw [h.visit hrun htake hnew]
    exact .visit htake hnew

theorem steps (h : c.Follows a files opts order p)
    (hrun : c.Steps files opts order (start p) m) :
    a.Steps files opts order (start ()) m.forget := by
  induction hrun with
  | refl => exact .refl
  | tail hrun hstep ih => exact ih.tail (h.step hrun hstep)

/-- **A finished run has visited exactly the public items.** -/
theorem contains_iff (h : c.Follows a files opts order p) (hle : order ≤ Order.any)
    (hrun : c.Steps files opts order (start p) m) (hfinished : c.Finished files opts m) :
    m.surface.contains i = true ↔ a.Public files opts i := by
  have hinv := Inv.start.steps hle (h.steps hrun)
  exact hinv.contains_iff ⟨hfinished.1, length_phases.symm.trans_le hfinished.2⟩

/-- **A run whose answers do not change ends.** -/
theorem acc (h : c.Follows a files opts order p) (hle : order ≤ Order.any)
    (hfinite : {i | a.Public files opts i}.Finite)
    (hrun : c.Steps files opts order (start p) m) : Acc (flip (c.Step files opts order)) m := by
  have hacc := (Inv.start.steps hle (h.steps hrun)).acc hfinite hle
  generalize hu : m.forget = u at hacc
  induction hacc generalizing m with
  | intro u _ ih =>
    subst hu
    exact ⟨_, fun m' hstep => ih _ (h.step hrun hstep) (hrun.tail hstep) rfl⟩

end Follows

/-! ### The exploration as a run -/

/-- What an exploration finds from a moment on. -/
def finish (c : Checker σ) (files : List FileId) (opts : SurfaceOptions) (m : Moment σ) :
    Option (Surface × σ) :=
  (Surface.explore (c.next opts.privateMembersInternal) m.work m.surface m.state).bind fun out =>
    ((c.phases files opts).drop m.begun).foldlM (c.extend opts) out.1 out.2

theorem finish_start : c.finish files opts (start p) = c.collect? files opts p := by
  rw [finish, start, Surface.explore_nil]
  rfl

/-- Where no phase has anything to start from, nothing is visited and nothing is asked. -/
theorem collect?_of_quiet (h : ∀ phase ∈ c.phases files opts, phase p = []) :
    c.collect? files opts p = some ({}, p) := by
  have hfold (phases : List (σ → List Item)) (h : ∀ phase ∈ phases, phase p = []) :
      phases.foldlM (c.extend opts) {} p = some ({}, p) := by
    induction phases with
    | nil => rfl
    | cons phase phases ih =>
      have hfirst : c.extend opts {} phase p = some ({}, p) := by
        rw [extend, h phase List.mem_cons_self, List.reverse_nil, Surface.explore_nil]
      rw [List.foldlM_cons]
      change (c.extend opts {} phase p).bind _ = _
      rw [hfirst]
      exact ih fun phase hphase => h phase (List.mem_cons_of_mem _ hphase)
  exact hfold _ h

/-- **The exploration takes the item put on the list last.** -/
theorem Step.finish_eq (h : c.Step files opts Order.lastFirst m m') :
    c.finish files opts m = c.finish files opts m' := by
  cases h with
  | begin_ hphase =>
    obtain ⟨hlt, rfl⟩ := List.getElem?_eq_some_iff.mp hphase
    unfold finish
    rw [Surface.explore_nil, Option.bind_some, List.drop_eq_getElem_cons hlt, List.foldlM_cons]
    rfl
  | seen htake hseen =>
    obtain rfl := htake
    unfold finish
    rw [Surface.explore_cons_seen hseen]
  | visit htake hnew =>
    obtain rfl := htake
    unfold finish
    rw [Surface.explore_cons_visit hnew]

theorem Finished.finish_eq (h : c.Finished files opts m) :
    c.finish files opts m = some (m.surface, m.state) := by
  rw [finish, h.1, Surface.explore_nil, Option.bind_some, List.drop_eq_nil_of_le h.2]
  rfl

theorem finished_or_step (c : Checker σ) (files : List FileId) (opts : SurfaceOptions)
    (m : Moment σ) :
    c.Finished files opts m ∨ ∃ m', c.Step files opts Order.lastFirst m m' := by
  obtain ⟨k, work, r, q⟩ := m
  cases work with
  | nil =>
    rcases Nat.lt_or_ge k (c.phases files opts).length with hlt | hge
    · exact .inr ⟨_, .begin_ (List.getElem?_eq_getElem hlt)⟩
    · exact .inl ⟨rfl, hge⟩
  | cons i work =>
    cases h : r.contains i with
    | true => exact .inr ⟨_, .seen rfl h⟩
    | false => exact .inr ⟨_, .visit rfl h⟩

/-- A run that ends, ends with what the exploration finds. -/
theorem exists_finished (h : Acc (flip (c.Step files opts Order.lastFirst)) m) :
    ∃ m', c.Steps files opts Order.lastFirst m m' ∧ c.Finished files opts m' ∧
      c.finish files opts m = some (m'.surface, m'.state) := by
  induction h with
  | intro m _ ih =>
    rcases c.finished_or_step files opts m with hfinished | ⟨m', hstep⟩
    · exact ⟨m, .refl, hfinished, hfinished.finish_eq⟩
    · obtain ⟨m'', hsteps, hfinished, heq⟩ := ih m' hstep
      exact ⟨m'', hsteps.head hstep, hfinished, hstep.finish_eq.trans heq⟩

/-- **An exploration whose answers do not change ends with the public items.** -/
theorem Follows.exists_collect? (h : c.Follows a files opts Order.lastFirst p)
    (hfinite : {i | a.Public files opts i}.Finite) :
    ∃ r q, c.collect? files opts p = some (r, q) ∧
      ∀ i, r.contains i = true ↔ a.Public files opts i := by
  have hacc := h.acc Order.lastFirst_le_any hfinite .refl
  obtain ⟨m, hsteps, hfinished, hfinish⟩ := exists_finished hacc
  refine ⟨m.surface, m.state, finish_start.symm.trans hfinish, fun i => ?_⟩
  exact h.contains_iff Order.lastFirst_le_any hsteps hfinished

/-- A set of items that has the roots and all that its items lead to. -/
def Closed (a : Checker Unit) (files : List FileId) (opts : SurfaceOptions) (s : Set Item) : Prop :=
  (∀ i, a.Root files opts i → i ∈ s) ∧
    ∀ i ∈ s, ∀ j, a.Leads opts.privateMembersInternal i j → j ∈ s

/-- The public items are the least such set. -/
theorem isLeast_public : IsLeast {s | a.Closed files opts s} {i | a.Public files opts i} := by
  refine ⟨⟨fun i hi => hi.public, fun i hi j hleads => hi.leads hleads⟩, ?_⟩
  rintro s ⟨hroots, hleads⟩ i ⟨root, hroot, hpath⟩
  induction hpath with
  | refl => exact hroots _ hroot
  | tail _ hstep ih => exact hleads _ ih _ hstep

/-- The surface of a program whose answers do not change is what is public. -/
theorem contains_collectSurface {p : Program}
    (h : Program.checker.Follows a files opts Order.lastFirst p)
    (hfinite : {i | a.Public files opts i}.Finite) (i : Item) :
    ((collectSurface files opts).value p).contains i = true ↔ a.Public files opts i := by
  obtain ⟨r, q, hcollect, hcontains⟩ := h.exists_collect? hfinite
  have hvalue : (collectSurface files opts).value p = r := by
    change ((Program.checker.collect? files opts p).getD ({}, p)).1 = r
    rw [hcollect]
    rfl
  rw [hvalue, hcontains]

theorem collectSurface_of_quiet {p : Program}
    (h : ∀ phase ∈ Program.checker.phases files opts, phase p = []) :
    collectSurface files opts p = ({}, p) := by
  rw [collectSurface, collect?_of_quiet h]
  rfl

/-- The surface is what the exploration has to find, in this order and in every other in
which the checker gives the same answers. -/
structure IsSurface (c : Checker σ) (a : Checker Unit) (files : List FileId)
    (opts : SurfaceOptions) (p : σ) (r : Surface) : Prop where
  /-- Exactly what the roots lead to has been visited. -/
  contains_iff : ∀ i, r.contains i = true ↔ a.Public files opts i
  /-- It is the least that has the roots and what its items lead to. -/
  isLeast : IsLeast {s | a.Closed files opts s} {i | r.contains i = true}
  /-- Intrinsic types are not entered. -/
  intrinsic : ∀ t, r.contains (.type t) = true → a.isIntrinsic () t = false
  /-- Every order of work comes to an end. -/
  ends : ∀ order ≤ Order.any, c.Follows a files opts order p →
    Acc (flip (c.Step files opts order)) (start p)
  /-- Every order of work finds the same. -/
  same : ∀ order ≤ Order.any, c.Follows a files opts order p →
    ∀ m, c.Steps files opts order (start p) m → c.Finished files opts m →
      ∀ i, m.surface.contains i = r.contains i

/-- **The public surface is a least fixed point.** An exploration of finitely many items
whose answers do not change ends with it. -/
theorem isSurface_collect (h : c.Follows a files opts Order.lastFirst p)
    (hfinite : {i | a.Public files opts i}.Finite) :
    ∃ r q, c.collect? files opts p = some (r, q) ∧ c.IsSurface a files opts p r := by
  obtain ⟨r, q, hcollect, hcontains⟩ := h.exists_collect? hfinite
  have hset : {i | r.contains i = true} = {i | a.Public files opts i} := Set.ext hcontains
  refine ⟨r, q, hcollect, hcontains, hset ▸ isLeast_public, fun t ht => ?_, ?_, ?_⟩
  · exact ((hcontains _).mp ht).enters
  · intro order hle hfollows
    exact hfollows.acc hle hfinite .refl
  · intro order hle hfollows m hsteps hfinished i
    have hiff := (hfollows.contains_iff hle hsteps hfinished).trans (hcontains i).symm
    exact Bool.eq_iff_iff.mpr hiff

/-! ### A class that refers to itself -/

/-- The checker with a count of the questions that it has been asked. -/
def counting (a : Checker Unit) : Checker Nat :=
  let count {α : Type} (m : StateM Unit α) : StateM Nat α := fun n => ((m ()).1, n + 1)
  { files := fun _ => a.files ()
    exports := fun _ => a.exports ()
    ambientExports := fun _ => a.ambientExports ()
    effectRoots := fun _ => a.effectRoots ()
    moduleScope? := fun _ => a.moduleScope? ()
    visibleSymbols := fun _ => a.visibleSymbols ()
    scopeKind := fun _ => a.scopeKind ()
    fileOf := fun _ => a.fileOf ()
    symbol := fun _ => a.symbol ()
    declared? := fun _ => a.declared? ()
    referenced? := fun _ => a.referenced? ()
    typeInfo := fun _ => a.typeInfo ()
    isIntrinsic := fun _ => a.isIntrinsic ()
    typeMembers := fun _ => a.typeMembers ()
    resolveAlias := fun s => count (a.resolveAlias s)
    typeOfSymbol := fun s => count (a.typeOfSymbol s)
    declaredTypeOf := fun s => count (a.declaredTypeOf s)
    typeOfNode := fun n => count (a.typeOfNode n) }

/-- Counting does not change the answers. -/
theorem counting_next (hidden : Bool) (i : Item) (n : Nat) :
    (a.counting.next hidden i n).1 = (a.next hidden i ()).1 := by
  cases i with
  | symbol s =>
    change (a.counting.fromSymbol s n).1 = (a.fromSymbol s ()).1
    have hbind {α β : Type} (m : StateM Nat α) (f : α → StateM Nat β) (n : Nat) :
        ((m >>= f) n).1 = (f (m n).1 (m n).2).1 := rfl
    have halias : (a.counting.resolveAlias s n).1 = (a.resolveAlias s ()).1 := rfl
    rw [fromSymbol_eq]
    unfold fromSymbol
    rw [hbind]
    change Prod.fst ((if (a.symbol () s).isAlias then _ else _ : StateM Nat (List Item)) n) = _
    split
    · rw [hbind, halias]
      cases (a.resolveAlias s ()).1 with
      | none => rfl
      | some target =>
        dsimp only
        split
        · rfl
        · rfl
    · rw [hbind]
      change Prod.fst ((if (a.symbol () s).isAny (Traits.type.insert .shape) then _ else _ :
        StateM Nat (List Item)) _) = _
      split
      · rfl
      · rfl
  | type t => rfl
  | node d => rfl

theorem counting_phases (n : Nat) :
    (a.counting.phases files opts).map (fun phase => phase n) =
      (a.phases files opts).map fun phase => phase () := by
  simp only [phases, List.map_append, List.map_map, List.map_cons, List.map_nil]
  cases opts.effectRoots with
  | true => rfl
  | false => rfl

theorem counting_follows (a : Checker Unit) (n : Nat) :
    a.counting.Follows a files opts order n where
  phase {k r q phase phase'} _ hphase hphase' := by
    have hmap : ((a.counting.phases files opts).map fun phase => phase q)[k]? =
        ((a.phases files opts).map fun phase => phase ())[k]? := by rw [counting_phases]
    rw [List.getElem?_map, List.getElem?_map, hphase, hphase'] at hmap
    exact Option.some.inj hmap
  visit _ _ _ := counting_next _ _ _

/-- Only items of a list that has the roots and all that its items lead to are public. -/
theorem finite_public (l : List Item) (hroots : ∀ phase ∈ a.phases files opts, ∀ i ∈ phase (), i ∈ l)
    (hnext : ∀ i ∈ l, ∀ j ∈ (a.next opts.privateMembersInternal i ()).1, j ∈ l) :
    {i | a.Public files opts i}.Finite := by
  refine l.finite_toSet.subset (isLeast_public.2 ⟨fun i hi => ?_, fun i hi j hleads => ?_⟩)
  · obtain ⟨phase, hphase, hmem⟩ := exists_mem_phases.mpr hi
    exact hroots phase hphase i hmem
  · exact hnext i hi j (mem_next.mpr hleads)

/-- The class `class Node { next: Node; private label: string }`, exported by a file.
The symbols are the class and its members, in this order; the types are those of its
instances, of the class itself, and of texts. -/
def selfReference : Checker Unit where
  files _ := [⟨0⟩]
  exports _ _ := [⟨0⟩]
  ambientExports _ _ := []
  effectRoots _ _ := []
  moduleScope? _ _ := some ⟨1⟩
  visibleSymbols _ _ _ := [⟨0⟩]
  scopeKind _ sc := if sc.idx = 0 then .global else .ofModule
  fileOf _ _ := ⟨0⟩
  symbol _ s :=
    match s.idx with
    | 0 => { name := "Node", traits := .of [.classDecl], decls := [⟨0⟩], scope := some ⟨1⟩ }
    | 1 => { name := "next", traits := .of [.property], decls := [⟨1⟩], owner := some ⟨0⟩ }
    | _ => { name := "label", traits := .of [.property, .softPrivate], decls := [⟨2⟩],
             owner := some ⟨0⟩ }
  declared? _ n := some ⟨n.idx⟩
  referenced? _ _ := none
  typeInfo _ t :=
    match t.idx with
    | 0 => { kind := .object, symbol := some ⟨0⟩ }
    | 1 => { kind := .object, symbol := some ⟨0⟩, instance? := some ⟨0⟩ }
    | _ => { name := "string" }
  isIntrinsic _ t := t.idx == 2
  typeMembers _ t := if t.idx = 0 then [⟨1⟩, ⟨2⟩] else []
  resolveAlias s := return some s
  typeOfSymbol s := return some (match s.idx with
    | 0 => ⟨1⟩
    | 1 => ⟨0⟩
    | _ => ⟨2⟩)
  declaredTypeOf s := return if s.idx = 0 then some ⟨0⟩ else none
  typeOfNode n := return some (match n.idx with
    | 0 => ⟨1⟩
    | 1 => ⟨0⟩
    | _ => ⟨2⟩)

/-- Members marked `private` stay out of the surface. -/
def hidesPrivates : SurfaceOptions := { privateMembersInternal := true }

theorem isSurface_collect_selfReference :
    selfReference.counting.Follows selfReference [⟨0⟩] hidesPrivates Order.lastFirst 0 ∧
    {i | selfReference.Public [⟨0⟩] hidesPrivates i}.Finite ∧
    ∃ r q, selfReference.counting.collect? [⟨0⟩] hidesPrivates 0 = some (r, q) ∧
      selfReference.counting.IsSurface selfReference [⟨0⟩] hidesPrivates 0 r := by
  have hfollows : selfReference.counting.Follows selfReference [⟨0⟩] hidesPrivates
      Order.lastFirst 0 := selfReference.counting_follows 0
  have hfinite : {i | selfReference.Public [⟨0⟩] hidesPrivates i}.Finite :=
    finite_public [.symbol ⟨0⟩, .node ⟨0⟩, .type ⟨0⟩, .type ⟨1⟩, .symbol ⟨1⟩, .node ⟨1⟩]
      (by decide) (by decide)
  exact ⟨hfollows, hfinite, isSurface_collect hfollows hfinite⟩

end Checker
end Moniker
