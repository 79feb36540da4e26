/-
# Circles of dependencies

A lax bundle fails, if there is an entry to bundle, exactly if the targets of the entry's
imports lead into a circle of dependencies (`detectsCircles_bundle`).

* The targets of the open frames depend on each other, from the bottom up, so a target
  that is needed while its own frame is open closes a circle.  The report names it.
* A target that is copied leads into no circle (`Sound.acc`), and in the end everything is
  copied that the entry asks for.  Targets that cannot be copied depend on nothing.
-/

import Moniker.Proofs.Bundling.Traversal
import Mathlib.Data.List.Chain

namespace Moniker
namespace Bundle

open Relation (ReflTransGen TransGen)

variable {p : Program} {entry : FileId} {s : State} {r : Request} {t u : SymbolId} {d : Diagnostic}
  {f top : Frame} {rest stack : List Frame} {cur : Option Request}

/-- The target of an import of the entry. -/
def Root (p : Program) (entry : FileId) (t : SymbolId) : Prop := ∃ r, Asked p entry r ∧ r.target = t

/-- The imports of the entry lead into a circle. -/
def HasCircle (p : Program) (entry : FileId) : Prop :=
  ∃ t u, Root p entry t ∧ ReflTransGen (Edge p entry) t u ∧ TransGen (Edge p entry) u u

/-- Symbols that depend on each other in a circle: the last one is the first one again. -/
structure IsCircle (p : Program) (entry : FileId) (chain : List SymbolId) : Prop where
  length : 2 ≤ chain.length
  closed : chain.head? = chain.getLast?
  edges : chain.IsChain (Edge p entry)

/-! ### The open frames -/

/-- The targets of the open frames, the topmost first. -/
def targets (stack : List Frame) : List SymbolId := stack.map fun f => f.request.target

theorem Stacked.edge (h : Stacked p entry s (some r) (f :: rest))
    (hr : (shapeOf? p r.target).isSome = true) : Edge p entry f.request.target r.target := by
  cases h with
  | frame hcur hshape => exact ⟨_, hshape, ⟨r, hcur r rfl, rfl⟩, hr⟩

theorem Stacked.shape (h : Stacked p entry s cur stack) :
    ∀ f ∈ stack, shapeOf? p f.request.target = some f.shape := by
  induction h with
  | empty => exact nofun
  | frame _ hshape _ _ _ _ ih =>
    intro f hf
    rcases List.mem_cons.mp hf with rfl | hf
    · exact hshape
    · exact ih f hf

/-- Every target of a frame depends on the one above. -/
theorem Stacked.isChain (h : Stacked p entry s cur stack) :
    (targets stack).IsChain fun u t => Edge p entry t u := by
  induction h with
  | empty => exact .nil
  | @frame cur top rest _ hshape _ _ _ hrest ih =>
    cases rest with
    | nil => exact .singleton _
    | cons f rest => exact .cons_cons (hrest.edge (by rw [hshape]; rfl)) ih

/-- Every target of a frame leads to the topmost one. -/
theorem Stacked.reaches_top (h : Stacked p entry s cur (top :: rest)) :
    ∀ f ∈ top :: rest, ReflTransGen (Edge p entry) f.request.target top.request.target := by
  induction rest generalizing top cur with
  | nil =>
    intro f hf
    rw [List.mem_singleton.mp hf]
  | cons g rest ih =>
    intro f hf
    cases h with
    | frame _ hshape _ _ _ hrest =>
      rcases List.mem_cons.mp hf with rfl | hf
      · exact .refl
      · exact (ih hrest f hf).tail (hrest.edge (by rw [hshape]; rfl))

/-- The imports of the entry lead to the target of every frame. -/
theorem Stacked.reached (h : Stacked p entry s cur stack) : ∀ f ∈ stack,
    ∃ t, Root p entry t ∧ ReflTransGen (Edge p entry) t f.request.target := by
  induction h with
  | empty => exact nofun
  | @frame cur top rest _ hshape _ _ _ hrest ih =>
    intro f hf
    rcases List.mem_cons.mp hf with rfl | hf
    · cases rest with
      | nil =>
        cases hrest with
        | empty hcur => exact ⟨_, ⟨_, hcur _ rfl, rfl⟩, .refl⟩
      | cons g rest =>
        obtain ⟨t, ht, hreach⟩ := ih g List.mem_cons_self
        exact ⟨t, ht, hreach.tail (hrest.edge (by rw [hshape]; rfl))⟩
    · exact ih f hf

/-! ### The report -/

/-- The targets from the top down to the first frame of a target. -/
def downTo (t : SymbolId) (stack : List Frame) : List SymbolId :=
  targets (stack.take ((stack.takeWhile fun f => f.request.target != t).length + 1))

theorem getLast?_downTo (h : t ∈ targets stack) : (downTo t stack).getLast? = some t := by
  induction stack with
  | nil => cases h
  | cons f rest ih =>
    by_cases hf : f.request.target = t
    · simp [downTo, targets, hf]
    · have hrest : t ∈ targets rest := (List.mem_cons.mp h).resolve_left (Ne.symm hf)
      have hcons : downTo t (f :: rest) = f.request.target :: downTo t rest := by
        simp [downTo, targets, hf]
      rw [hcons, List.getLast?_cons, ih hrest]
      rfl

/-- The circle that a request closes. -/
def circleOf (stack : List Frame) (r : Request) : List SymbolId :=
  (r.target :: downTo r.target stack).reverse

/-- What is reported of a circle: the names on it. -/
theorem cycle_spec (p : Program) (stack : List Frame) (r : Request) :
    (cycle p stack r).code = .cyclicDependency ∧
    (cycle p stack r).message = "cyclic dependency " ++
      Text.join " -> " ((circleOf stack r).map fun t => (p.symbol t).name) ∧
    (cycle p stack r).details =
      some (Value.ofTexts ((circleOf stack r).map fun t => (p.symbol t).name)) := by
  have hchain : (circleOf stack r).map (fun t => (p.symbol t).name) =
      ((stack.take ((stack.takeWhile fun f => f.request.target != r.target).length + 1)).reverse.map
        fun f => (p.symbol f.request.target).name) ++ [(p.symbol r.target).name] := by
    simp [circleOf, downTo, targets]
    rfl
  rw [hchain]
  exact ⟨rfl, rfl, rfl⟩

/-- The topmost frame needs a target that can be copied. -/
theorem Stacked.edge_of_pending (h : Stacked p entry s cur (top :: rest)) (hr : r ∈ top.pending)
    (hopen : r.target ∈ targets (top :: rest)) : Edge p entry top.request.target r.target := by
  obtain ⟨f, hf, htarget⟩ := List.mem_map.mp hopen
  have hshape := h.shape f hf
  cases h with
  | frame _ htop _ hpending =>
    refine ⟨_, htop, ⟨r, hpending r hr, rfl⟩, ?_⟩
    rw [← htarget, hshape]
    rfl

/-- **A target needed while its own frame is open closes a circle.** -/
theorem isCircle_circleOf (h : Stacked p entry s cur (top :: rest)) (hr : r ∈ top.pending)
    (hopen : r.target ∈ targets (top :: rest)) : IsCircle p entry (circleOf (top :: rest) r) := by
  have hlast := getLast?_downTo hopen
  obtain ⟨l, hdown⟩ : ∃ l, downTo r.target (top :: rest) = top.request.target :: l :=
    ⟨_, by simp [downTo, targets]; rfl⟩
  have hchain : (downTo r.target (top :: rest)).IsChain fun u t => Edge p entry t u := by
    unfold downTo targets
    rw [List.map_take]
    exact h.isChain.take _
  refine ⟨?_, ?_, ?_⟩
  · simp [circleOf, hdown]
  · rw [circleOf, List.head?_reverse, List.getLast?_reverse, List.getLast?_cons, hlast]
    rfl
  · rw [circleOf, List.isChain_reverse, hdown]
    rw [hdown] at hchain
    exact .cons_cons (h.edge_of_pending hr hopen) hchain

/-- A circle that is closed can be reached from the entry. -/
theorem hasCircle_of_open (h : Stacked p entry s cur (top :: rest)) (hr : r ∈ top.pending)
    (hopen : r.target ∈ targets (top :: rest)) : HasCircle p entry := by
  obtain ⟨f, hf, htarget⟩ := List.mem_map.mp hopen
  obtain ⟨t, ht, hreach⟩ := h.reached f hf
  have htop := h.reaches_top f hf
  rw [htarget] at hreach htop
  exact ⟨t, r.target, ht, hreach, .tail' htop (h.edge_of_pending hr hopen)⟩

/-! ### No circle -/

theorem acc_of_reaches (h : Acc (fun u t => Edge p entry t u) t)
    (hreach : ReflTransGen (Edge p entry) t u) : Acc (fun u t => Edge p entry t u) u := by
  induction hreach with
  | refl => exact h
  | tail _ hedge ih => exact ih.inv hedge

/-- No circle leads through a target that is copied. -/
theorem not_circle_of_acc (h : Acc (fun u t => Edge p entry t u) t) :
    ¬ TransGen (Edge p entry) t t := by
  induction h with
  | intro t _ ih =>
    intro hcircle
    obtain ⟨u, hedge, hreach⟩ := TransGen.head'_iff.mp hcircle
    exact ih u hedge (.tail' hreach hedge)

theorem not_edge_of_shapeless (h : shapeOf? p t = none) : ¬ Edge p entry t u := by
  rintro ⟨sh, hsh, -⟩
  rw [h] at hsh
  cases hsh

/-- If everything the entry asks for is settled, it leads into no circle. -/
theorem not_hasCircle (h : Sound p entry none s) (hroots : ∀ r, Asked p entry r → Settled p s r) :
    ¬ HasCircle p entry := by
  rintro ⟨t, u, ⟨r, hr, rfl⟩, hreach, hcircle⟩
  obtain hname | ⟨hnone, -⟩ := hroots r hr
  · obtain ⟨sh, hinlined⟩ := h.named _ (List.ne_nil_of_mem hname)
    exact not_circle_of_acc (acc_of_reaches (h.acc _ sh hinlined) hreach) hcircle
  · have hno : ∀ v, ¬ Edge p entry r.target v := fun v => not_edge_of_shapeless hnone
    obtain rfl | ⟨v, hedge, -⟩ := hreach.cases_head
    · obtain ⟨v, hedge, -⟩ := TransGen.head'_iff.mp hcircle
      exact hno v hedge
    · exact hno v hedge

/-- A lax bundle stops at circles only. -/
theorem circle_of_stops {start : State} (h : Sound p entry none start)
    (hd : Halts p entry false start d) : HasCircle p entry ∧ d.code = .cyclicDependency ∧
      ∃ chain, IsCircle p entry chain ∧
        d.message = "cyclic dependency " ++
          Text.join " -> " (chain.map fun t => (p.symbol t).name) ∧
        d.details = some (Value.ofTexts (chain.map fun t => (p.symbol t).name)) := by
  obtain ⟨s, hsteps, hstops⟩ := hd
  have hsound := h.steps hsteps
  cases hstops with
  | minor hstrict => cases hstrict
  | @circle r hinlining hawaited =>
    have hopen := (hsound.inlining_iff _).mp hinlining
    obtain ⟨hs, -⟩ | ⟨top, rest, hs, hr⟩ := hawaited
    · rw [hs] at hopen
      cases hopen
    · have hstacked := hsound.stacked
      rw [hs] at hopen hstacked ⊢
      obtain ⟨hcode, hmessage, hdetails⟩ := cycle_spec p (top :: rest) r
      exact ⟨hasCircle_of_open hstacked hr hopen, hcode, _, isCircle_circleOf hstacked hr hopen,
        hmessage, hdetails⟩

/-- What it means that the failures of a lax bundle are the circles. -/
structure DetectsCircles (p : Program) (path : String) (outcome : Except Failure BundleResult) :
    Prop where
  /-- The bundle fails without an entry, or if its imports lead into a circle. -/
  fails_iff : (∃ f, outcome = .error f) ↔ p.fileAt? path = none ∨
    ∃ entry, p.fileAt? path = some entry ∧ HasCircle p entry
  /-- The report names the symbols of a circle. -/
  report : ∀ entry f, p.fileAt? path = some entry → outcome = .error f →
    ∃ d, f = .coded d ∧ d.code = .cyclicDependency ∧ ∃ chain, IsCircle p entry chain ∧
      d.message = "cyclic dependency " ++
        Text.join " -> " (chain.map fun t => (p.symbol t).name) ∧
      d.details = some (Value.ofTexts (chain.map fun t => (p.symbol t).name))

end Bundle

open Moniker.Bundle

/-- **A lax bundle fails exactly at circles, and reports one.** -/
theorem detectsCircles_bundle (p : Program) (path : String) :
    DetectsCircles p path ((bundle path false).value p).1 where
  fails_iff := by
    simp only [bundle_error_iff]
    constructor
    · rintro ⟨f, ⟨hentry, -⟩ | ⟨entry, d, s, q, hentry, hrun, -⟩⟩
      · exact .inl hentry
      · exact .inr ⟨entry, hentry, (circle_of_stops (.start p entry) (run_error hrun)).1⟩
    · rintro (hentry | ⟨entry, hentry, hcircle⟩)
      · exact ⟨_, .inl ⟨hentry, rfl⟩⟩
      rcases hrun : (Bundle.run entry false).run p with ⟨⟨d | body, s⟩, q⟩
      · exact ⟨_, .inr ⟨entry, d, s, q, hentry, hrun, rfl⟩⟩
      · obtain ⟨-, hsteps, -⟩ := run_ok hrun
        have hsound := (Sound.start p entry).steps hsteps
        exact absurd hcircle (not_hasCircle hsound (asked_settled hrun))
  report := by
    intro entry f hentry hf
    obtain ⟨hnone, -⟩ | ⟨entry', d, s, q, hentry', hrun, rfl⟩ := bundle_error_iff.mp hf
    · cases hentry.symm.trans hnone
    · obtain rfl := Option.some.inj (hentry.symm.trans hentry')
      obtain ⟨-, hcode, hchain⟩ := circle_of_stops (.start p entry) (run_error hrun)
      exact ⟨d, rfl, hcode, hchain⟩

end Moniker
