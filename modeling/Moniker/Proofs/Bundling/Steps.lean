/-
# The steps of the traversal

A bundle is a sequence of `Step`s.  An import of the entry is asked for when no frame is
open; the topmost frame asks for its next dependency, or is closed if there is none left.
Whoever asks is served (`Serves`): a target that has been copied gets a name, one that has
not been visited gets a frame, and one that cannot be copied is reported.

A bundle `Stops` when a target is needed whose frame is open, or when it is strict and
something is to be reported.  Every step but a remark makes `State.work` less.
-/

import Moniker.Proofs.Bundling.Requests
import Mathlib.Algebra.Ring.Nat
import Mathlib.Data.Finset.Card

namespace Moniker
namespace Bundle

open Program (Remembers)
open Relation (ReflTransGen)

variable {p : Program} {entry : FileId} {s s' s₁ : State} {r dep : Request} {sh : Shape}
  {d : Diagnostic} {top : Frame} {rest : List Frame} {deps : List Request}

/-- The request of an import of the entry. -/
def Asked (p : Program) (entry : FileId) (r : Request) : Prop :=
  ∃ imp ∈ (p.moduleOf entry).imports, ∃ b ∈ imp.bindings,
    requested p entry b imp = .ok (some r)

/-- What serving a request comes to. -/
inductive Serves (p : Program) (entry : FileId) (s : State) (r : Request) : State → Prop
  | known {sh : Shape} (h : s.progressOf r.target = .inlined sh) :
    Serves p entry s r (s.bind p r sh)
  | opened {sh : Shape} (h : s.progressOf r.target = .unvisited)
    (hsh : shapeOf? p r.target = some sh) (hr : Reported p entry sh.decl s) :
    Serves p entry s r (s.push r sh (needs p entry sh.decl))
  | refused {d : Diagnostic} (h : shapeOf? p r.target = none) (hd : Minor d) :
    Serves p entry s r (s.warn d)

/-- One step of a bundle. -/
inductive Step (p : Program) (entry : FileId) (s : State) : State → Prop
  | remark {s' : State} (h : Remark s s') : Step p entry s s'
  | ask {r : Request} {s' : State} (hs : s.stack = []) (hr : Asked p entry r)
    (h : Serves p entry s r s') : Step p entry s s'
  | need {top : Frame} {rest : List Frame} {dep : Request} {deps : List Request} {s' : State}
    (hs : s.stack = top :: rest) (hp : top.pending = dep :: deps)
    (h : Serves p entry { s with stack := { top with pending := deps } :: rest } dep s') :
    Step p entry s s'
  | close {top : Frame} {rest : List Frame} (hs : s.stack = top :: rest)
    (hp : top.pending = []) : Step p entry s (s.pop p top rest)

/-- Any number of steps. -/
abbrev Steps (p : Program) (entry : FileId) : State → State → Prop := ReflTransGen (Step p entry)

/-- The request is the next one, or one of those that the topmost frame still has. -/
def Awaited (p : Program) (entry : FileId) (s : State) (r : Request) : Prop :=
  (s.stack = [] ∧ Asked p entry r) ∨ ∃ top rest, s.stack = top :: rest ∧ r ∈ top.pending

/-- Why a bundle ends without a result. -/
inductive Stops (p : Program) (entry : FileId) (strict : Bool) (s : State) : Diagnostic → Prop
  | circle {r : Request} (h : s.progressOf r.target = .inlining) (hr : Awaited p entry s r) :
    Stops p entry strict s (cycle p s.stack r)
  | minor {d : Diagnostic} (h : strict = true) (hd : Minor d) : Stops p entry strict s d

theorem Remarks.steps (h : Remarks s s') : Steps p entry s s' :=
  ReflTransGen.mono (fun _ _ => .remark) _ _ h

/-! ### What copying and reporting leave alone -/

namespace State

variable {t : SymbolId} {name : String} {n : NodeId}

theorem travel_addName : (s.addName p t name n).stack = s.stack ∧
    (s.addName p t name n).progress = s.progress := by
  unfold addName claim
  dsimp only
  split <;> exact ⟨rfl, rfl⟩

theorem travel_introduce : (s.introduce p r sh).stack = s.stack ∧
    (s.introduce p r sh).progress = s.progress := by
  obtain ⟨ls, emitted, h⟩ | ⟨ls, emitted, l, h⟩ := introduce_cases p s r sh
  · rw [h]
    exact ⟨rfl, rfl⟩
  · rw [h]
    exact @travel_addName p { s with lines := ls, emitted := emitted } _ _ _

theorem travel_bind : (s.bind p r sh).stack = s.stack ∧ (s.bind p r sh).progress = s.progress := by
  unfold bind
  split
  · exact ⟨rfl, rfl⟩
  · have hname := @travel_addName p (s.introduce p r sh) r.target r.localName r.cause
    exact ⟨hname.1.trans travel_introduce.1, hname.2.trans travel_introduce.2⟩

@[simp] theorem stack_bind : (s.bind p r sh).stack = s.stack := travel_bind.1

@[simp] theorem progressOf_bind (t : SymbolId) :
    (s.bind p r sh).progressOf t = s.progressOf t := by
  rw [progressOf, travel_bind.2]
  rfl

theorem progressOf_push (t : SymbolId) : (s.push r sh deps).progressOf t =
    if r.target = t then .inlining else s.progressOf t := by
  unfold progressOf push
  rw [Table.getD_insert]
  simp only [beq_iff_eq]

@[simp] theorem stack_pop : (s.pop p top rest).stack = rest := stack_bind

theorem progressOf_pop (t : SymbolId) : (s.pop p top rest).progressOf t =
    if top.request.target = t then .inlined top.shape else s.progressOf t := by
  unfold pop
  rw [progressOf_bind]
  unfold progressOf
  rw [Table.getD_insert]
  simp only [beq_iff_eq]

/-- The target of the frame is copied, and no other one. -/
theorem inlined_of_pop {t : SymbolId} (h : (s.pop p top rest).progressOf t = .inlined sh) :
    (t = top.request.target ∧ sh = top.shape) ∨ s.progressOf t = .inlined sh := by
  rw [progressOf_pop] at h
  split at h
  · next ht => exact .inl ⟨ht.symm, (Progress.inlined.inj h).symm⟩
  · exact .inr h

end State

theorem Remark.travel (h : Remark s s') : s'.stack = s.stack ∧ s'.progress = s.progress := by
  cases h with
  | warn => exact ⟨rfl, rfl⟩
  | keep line =>
    unfold State.keepImport
    split <;> exact ⟨rfl, rfl⟩

/-- Remarks are made alike whatever frames are open. -/
theorem Remark.restack {stack : List Frame} (h : Remark { s with stack := stack } s') :
    ∃ s₁, Remark s s₁ ∧ s' = { s₁ with stack := stack } := by
  cases h with
  | warn hd => exact ⟨_, .warn hd, rfl⟩
  | keep line =>
    refine ⟨_, .keep line, ?_⟩
    unfold State.keepImport
    dsimp only
    split <;> rfl

theorem Remarks.travel (h : Remarks s s') : s'.stack = s.stack ∧ s'.progress = s.progress := by
  induction h with
  | refl => exact ⟨rfl, rfl⟩
  | tail _ hstep ih => exact ⟨hstep.travel.1.trans ih.1, hstep.travel.2.trans ih.2⟩

theorem Remarks.restack {stack : List Frame} (h : Remarks { s with stack := stack } s') :
    ∃ s₁, Remarks s s₁ ∧ s' = { s₁ with stack := stack } := by
  induction h with
  | refl => exact ⟨s, .refl, rfl⟩
  | tail _ hstep ih =>
    obtain ⟨s₁, hs₁, rfl⟩ := ih
    obtain ⟨s₂, hs₂, rfl⟩ := hstep.restack
    exact ⟨s₂, hs₁.tail hs₂, rfl⟩

/-- **What does not depend on the frames holds at the end of the steps, if remarks keep it and
so does binding a request.** -/
theorem Steps.keep {I : State → Prop} (hs : Steps p entry s s')
    (htravel : ∀ s stack progress, I s → I { s with stack := stack, progress := progress })
    (hremark : ∀ s s', Remark s s' → I s → I s') (hbind : ∀ s r sh, I s → I (s.bind p r sh))
    (h : I s) : I s' := by
  have hserve : ∀ {s s' r}, Serves p entry s r s' → I s → I s' := by
    intro s s' r hserves h
    cases hserves with
    | known => exact hbind _ _ _ h
    | opened => exact htravel _ _ _ h
    | refused _ hd => exact hremark _ _ (.warn hd) h
  induction hs with
  | refl => exact h
  | tail _ hstep ih =>
    cases hstep with
    | remark hremarks => exact hremark _ _ hremarks ih
    | ask _ _ hserves => exact hserve hserves ih
    | need _ _ hserves => exact hserve hserves (htravel _ _ _ ih)
    | close => exact hbind _ _ _ (htravel _ _ _ ih)

/-! ### How much is left to do -/

namespace State

/-- The symbols that have not been visited. -/
def unvisited (p : Program) (s : State) : Finset Nat :=
  (Finset.range p.symbols.size).filter fun i => s.progressOf ⟨i⟩ = .unvisited

/-- The requests of the open frames, and a frame for every symbol not visited. -/
def work (p : Program) (s : State) : Nat :=
  (s.stack.map fun f => f.pending.length + 1).sum
    + (s.unvisited p).card * (p.referenced.size + 2)

theorem work_congr (hstack : s'.stack = s.stack)
    (hprogress : ∀ t, s'.progressOf t = s.progressOf t) : s'.work p = s.work p := by
  unfold work unvisited
  simp only [hstack, hprogress]

theorem unvisited_push : (s.push r sh deps).unvisited p = (s.unvisited p).erase r.target.idx := by
  ext i
  simp only [unvisited, Finset.mem_filter, Finset.mem_erase, Finset.mem_range, progressOf_push]
  by_cases hi : r.target = ⟨i⟩
  · simp [hi]
  · have hne : i ≠ r.target.idx := fun h => hi (by rw [h])
    simp [hi, hne]

end State

/-- A symbol that can be copied is one of the program's. -/
theorem idx_lt_of_shapeOf? {t : SymbolId} (h : shapeOf? p t = some sh) :
    t.idx < p.symbols.size := by
  by_contra hsize
  have hsymbol : p.symbol t = default := Program.symbol_of_size_le (not_lt.mp hsize)
  unfold shapeOf? at h
  rw [hsymbol] at h
  cases h

theorem Serves.work_le (h : Serves p entry s r s') : s'.work p ≤ s.work p := by
  cases h with
  | known => exact (State.work_congr State.stack_bind State.progressOf_bind).le
  | refused => exact (State.work_congr rfl fun _ => rfl).le
  | @opened sh hnew hsh =>
    have hmem : r.target.idx ∈ s.unvisited p :=
      Finset.mem_filter.mpr ⟨Finset.mem_range.mpr (idx_lt_of_shapeOf? hsh), hnew⟩
    have hcard := Finset.card_erase_add_one hmem
    have hlength := needs_length_le p entry sh.decl
    unfold State.work
    rw [State.unvisited_push, ← hcard, Nat.add_mul]
    change (((needs p entry sh.decl).length + 1) + (s.stack.map _).sum) + _ ≤ _
    omega

theorem work_lt_of_need (hs : s.stack = top :: rest) (hp : top.pending = dep :: deps)
    (h : Serves p entry { s with stack := { top with pending := deps } :: rest } dep s') :
    s'.work p < s.work p := by
  refine h.work_le.trans_lt ?_
  unfold State.work
  rw [hs]
  simp only [List.map_cons, List.sum_cons, hp, List.length_cons]
  exact Nat.add_lt_add_right (by omega) _

theorem work_lt_of_close (hs : s.stack = top :: rest) (hp : top.pending = []) :
    (s.pop p top rest).work p < s.work p := by
  have hsubset : (s.pop p top rest).unvisited p ⊆ s.unvisited p := by
    intro i hi
    obtain ⟨hsize, hi⟩ := Finset.mem_filter.mp hi
    rw [State.progressOf_pop] at hi
    split at hi
    · cases hi
    · exact Finset.mem_filter.mpr ⟨hsize, hi⟩
  have hcard := Nat.mul_le_mul_right (p.referenced.size + 2) (Finset.card_le_card hsubset)
  unfold State.work
  rw [State.stack_pop, hs]
  simp only [List.map_cons, List.sum_cons, hp, List.length_nil]
  omega

theorem Remarks.work_eq (h : Remarks s s') : s'.work p = s.work p :=
  State.work_congr h.travel.1 fun _ => by rw [State.progressOf, h.travel.2]; rfl

end Bundle
end Moniker
