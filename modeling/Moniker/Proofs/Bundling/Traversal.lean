/-
# What the traversal keeps

`Sound s` says what the open frames and the copied targets of a state have to do with the
requests of declarations:

| target | its needs |
| --- | --- |
| of an open frame | pending, or being served by the frame above, or settled |
| copied | settled |

A need is settled if its target has the name asked for, or cannot be copied, which has
been reported then.  So the needs of a copied target are copied themselves, and no circle
leads through it (`Sound.acc`).  Every step keeps a state sound (`Sound.step`).
-/

import Moniker.Proofs.Bundling.Execution

namespace Moniker
namespace Bundle

open Relation (ReflTransGen TransGen)

variable {p : Program} {entry : FileId} {s s' : State} {r dep : Request} {sh : Shape}
  {t u : SymbolId} {top : Frame} {rest stack : List Frame} {deps : List Request}
  {cur : Option Request}

/-- A target depends on another one that can be copied. -/
def Edge (p : Program) (entry : FileId) (t u : SymbolId) : Prop :=
  ∃ sh, shapeOf? p t = some sh ∧ (∃ r ∈ needs p entry sh.decl, r.target = u) ∧
    (shapeOf? p u).isSome = true

/-- The target has the name that is asked for, or cannot be copied and a report says so. -/
def Settled (p : Program) (s : State) (r : Request) : Prop :=
  r.localName ∈ s.namesOf r.target ∨ (shapeOf? p r.target = none ∧ s.Blemished)

/-- Everything a declaration asks for is settled or reported. -/
structure Supplied (p : Program) (entry : FileId) (s : State) (decl : NodeId) : Prop where
  settled : ∀ r ∈ needs p entry decl, Settled p s r
  reported : Reported p entry decl s

/-- The open frames, the topmost first. `cur` is the request that is being served. -/
inductive Stacked (p : Program) (entry : FileId) (s : State) :
    Option Request → List Frame → Prop
  | empty {cur : Option Request} (hcur : ∀ r, cur = some r → Asked p entry r) :
    Stacked p entry s cur []
  | frame {cur : Option Request} {top : Frame} {rest : List Frame}
    (hcur : ∀ r, cur = some r → r ∈ needs p entry top.shape.decl)
    (hshape : shapeOf? p top.request.target = some top.shape)
    (hreported : Reported p entry top.shape.decl s)
    (hpending : ∀ r ∈ top.pending, r ∈ needs p entry top.shape.decl)
    (hneeds : ∀ r ∈ needs p entry top.shape.decl,
      r ∈ top.pending ∨ cur = some r ∨ Settled p s r)
    (hrest : Stacked p entry s (some top.request) rest) : Stacked p entry s cur (top :: rest)

/-- What holds of the states of a bundle. `cur` is the request that is being served. -/
structure Sound (p : Program) (entry : FileId) (cur : Option Request) (s : State) : Prop where
  stacked : Stacked p entry s cur s.stack
  nodup : (s.stack.map fun f => f.request.target).Nodup
  inlining_iff : ∀ t, s.progressOf t = .inlining ↔ t ∈ s.stack.map fun f => f.request.target
  shape : ∀ t sh, s.progressOf t = .inlined sh → shapeOf? p t = some sh
  supplied : ∀ t sh, s.progressOf t = .inlined sh → Supplied p entry s sh.decl
  acc : ∀ t sh, s.progressOf t = .inlined sh → Acc (fun u t => Edge p entry t u) t
  named : ∀ t, s.namesOf t ≠ [] → ∃ sh, s.progressOf t = .inlined sh

/-! ### What is settled stays settled -/

/-- Every name is kept, and so are the reports. -/
structure Grows (s s' : State) : Prop where
  names : ∀ t name, name ∈ s.namesOf t → name ∈ s'.namesOf t
  blemished : s.Blemished → s'.Blemished
  quiet : s'.Quiet → s.Quiet

namespace Grows

theorem settled (h : Grows s s') (hr : Settled p s r) : Settled p s' r :=
  hr.imp (h.names _ _) (And.imp_right h.blemished)

theorem supplied (h : Grows s s') {decl : NodeId} (hd : Supplied p entry s decl) :
    Supplied p entry s' decl :=
  ⟨fun r hr => h.settled (hd.settled r hr), fun u hu d hr => h.blemished (hd.reported u hu d hr)⟩

theorem stacked (h : Grows s s') (hs : Stacked p entry s cur stack) :
    Stacked p entry s' cur stack := by
  induction hs with
  | empty hcur => exact .empty hcur
  | frame hcur hshape hreported hpending hneeds _ ih =>
    refine .frame hcur hshape (fun u hu d hr => h.blemished (hreported u hu d hr)) hpending ?_ ih
    exact fun r hr => (hneeds r hr).imp_right (Or.imp_right h.settled)

theorem bind : Grows s (s.bind p r sh) :=
  ⟨fun _ _ => State.mem_namesOf_bind, State.blemished_bind.mpr, State.quiet_bind⟩

theorem pop : Grows s (s.pop p top rest) := by
  have h := @bind p { s with
    stack := rest
    progress := s.progress.insert top.request.target (.inlined top.shape) } top.request top.shape
  exact ⟨h.names, State.blemished_pop.mpr, State.quiet_pop⟩

theorem push : Grows s (s.push r sh deps) :=
  ⟨fun _ _ h => h, State.blemished_push.mpr, (State.quiet_congr rfl).mp⟩

theorem remark (h : Remark s s') : Grows s s' := by
  cases h with
  | warn =>
    exact ⟨fun _ _ h => h, fun h => State.blemished_warn.mpr (.inl h),
      fun h => absurd h State.not_quiet_warn⟩
  | keep line =>
    refine ⟨fun t name hname => ?_, State.blemished_keepImport.mpr, State.quiet_keepImport.mp⟩
    unfold State.keepImport
    split <;> exact hname

end Grows

/-- A request that is settled need not be served any more. -/
theorem Stacked.settle (h : Stacked p entry s (some r) stack) (hr : Settled p s r) :
    Stacked p entry s none stack := by
  cases h with
  | empty => exact .empty nofun
  | frame _ hshape hreported hpending hneeds hrest =>
    refine .frame nofun hshape hreported hpending (fun r' hr' => ?_) hrest
    obtain h | h | h := hneeds r' hr'
    · exact .inl h
    · exact .inr (.inr (Option.some.inj h ▸ hr))
    · exact .inr (.inr h)

/-! ### The steps -/

namespace Sound

theorem start (p : Program) (entry : FileId) : Sound p entry none (.start p entry) where
  stacked := .empty nofun
  nodup := .nil
  inlining_iff t := by simp [State.start, State.progressOf]
  shape t sh h := by simp [State.start, State.progressOf] at h
  supplied t sh h := by simp [State.start, State.progressOf] at h
  acc t sh h := by simp [State.start, State.progressOf] at h
  named t h := by simp [State.start, State.namesOf] at h

/-- The copied targets and the targets of the frames stay the same. -/
theorem of_same {cur' : Option Request} (h : Sound p entry cur s) (hgrows : Grows s s')
    (hstacked : Stacked p entry s' cur' s'.stack)
    (htargets : (s'.stack.map fun f => f.request.target) = s.stack.map fun f => f.request.target)
    (hprogress : ∀ t, s'.progressOf t = s.progressOf t)
    (hnamed : ∀ t, s'.namesOf t ≠ [] → ∃ sh, s.progressOf t = .inlined sh) :
    Sound p entry cur' s' := by
  refine ⟨hstacked, ?_, ?_, ?_, ?_, ?_, ?_⟩
  · rw [htargets]
    exact h.nodup
  · intro t
    rw [htargets, hprogress]
    exact h.inlining_iff t
  · intro t sh ht
    exact h.shape t sh (hprogress t ▸ ht)
  · intro t sh ht
    exact hgrows.supplied (h.supplied t sh (hprogress t ▸ ht))
  · intro t sh ht
    exact h.acc t sh (hprogress t ▸ ht)
  · intro t ht
    rw [hprogress]
    exact hnamed t ht

theorem remark (h : Sound p entry cur s) (hs : Remark s s') : Sound p entry cur s' := by
  obtain ⟨hstack, hprogress⟩ := hs.travel
  have hnames : ∀ t, s'.namesOf t = s.namesOf t := by
    intro t
    cases hs with
    | warn => rfl
    | keep line =>
      unfold State.keepImport
      split <;> rfl
  refine h.of_same (.remark hs) ?_ (by rw [hstack]) (fun t => ?_) fun t ht => ?_
  · rw [hstack]
    exact (Grows.remark hs).stacked h.stacked
  · rw [State.progressOf, hprogress]
    rfl
  · exact h.named t (hnames t ▸ ht)

/-- The topmost frame asks for its next dependency. -/
theorem need (h : Sound p entry none s) (hs : s.stack = top :: rest)
    (hp : top.pending = dep :: deps) :
    Sound p entry (some dep) { s with stack := { top with pending := deps } :: rest } := by
  have hgrows : Grows s { s with stack := { top with pending := deps } :: rest } :=
    ⟨fun _ _ h => h, fun h => h, fun h => h⟩
  have hstacked := h.stacked
  rw [hs] at hstacked
  refine h.of_same hgrows ?_ (by rw [hs]; rfl) (fun _ => rfl) h.named
  cases hstacked with
  | frame _ hshape hreported hpending hneeds hrest =>
    rw [hp] at hpending hneeds
    refine .frame ?_ hshape hreported (fun r hr => hpending r (List.mem_cons_of_mem _ hr)) ?_
      (hgrows.stacked hrest)
    · rintro r ⟨⟩
      exact hpending _ List.mem_cons_self
    · intro r hr
      obtain hr | hr | hr := hneeds r hr
      · rcases List.mem_cons.mp hr with rfl | hr
        · exact .inr (.inl rfl)
        · exact .inl hr
      · cases hr
      · exact .inr (.inr hr)

/-- An import of the entry is asked for. -/
theorem ask (h : Sound p entry none s) (hs : s.stack = []) (hr : Asked p entry r) :
    Sound p entry (some r) s := by
  refine h.of_same ⟨fun _ _ h => h, fun h => h, fun h => h⟩ ?_ rfl (fun _ => rfl) h.named
  rw [hs]
  refine .empty ?_
  rintro r ⟨⟩
  exact hr

theorem serve (h : Sound p entry (some r) s) (hs : Serves p entry s r s') :
    Sound p entry none s' := by
  cases hs with
  | @known sh hknown =>
    refine h.of_same .bind ?_ (by rw [State.stack_bind]) State.progressOf_bind fun t ht => ?_
    · rw [State.stack_bind]
      exact (Grows.bind.stacked h.stacked).settle (.inl State.localName_mem_bind)
    · by_cases hne : r.target = t
      · exact ⟨sh, hne ▸ hknown⟩
      · rw [State.namesOf_bind_of_ne hne] at ht
        exact h.named t ht
  | @opened sh hnew hsh hreported =>
    have hinlined : ∀ {t sh'}, (s.push r sh (needs p entry sh.decl)).progressOf t = .inlined sh' →
        s.progressOf t = .inlined sh' := by
      intro t sh' ht
      rw [State.progressOf_push] at ht
      split at ht
      · cases ht
      · exact ht
    refine ⟨?_, ?_, ?_, ?_, ?_, ?_, ?_⟩
    · exact .frame nofun hsh hreported (fun _ hr => hr) (fun _ hr => .inl hr)
        (Grows.push.stacked h.stacked)
    · refine List.nodup_cons.mpr ⟨fun hmem => ?_, h.nodup⟩
      cases hnew.symm.trans ((h.inlining_iff r.target).mpr hmem)
    · intro t
      rw [State.progressOf_push]
      by_cases ht : r.target = t
      · rw [if_pos ht, ← ht]
        exact ⟨fun _ => List.mem_cons_self, fun _ => rfl⟩
      · rw [if_neg ht, h.inlining_iff]
        refine ⟨List.mem_cons_of_mem _, fun hmem => ?_⟩
        exact (List.mem_cons.mp hmem).resolve_left (Ne.symm ht)
    · exact fun t sh' ht => h.shape t sh' (hinlined ht)
    · exact fun t sh' ht => Grows.push.supplied (h.supplied t sh' (hinlined ht))
    · exact fun t sh' ht => h.acc t sh' (hinlined ht)
    · intro t ht
      obtain ⟨sh', hinlined⟩ := h.named t ht
      refine ⟨sh', ?_⟩
      rw [State.progressOf_push, if_neg, hinlined]
      rintro rfl
      cases hnew.symm.trans hinlined
  | @refused d hsh hd =>
    have hwarn := h.remark (.warn hd)
    refine { hwarn with stacked := hwarn.stacked.settle (.inr ⟨hsh, ?_⟩) }
    exact State.blemished_warn.mpr (.inr hd.1)

/-- A frame is closed when its target has all that it needs. -/
theorem closing (h : Sound p entry none s) (hs : s.stack = top :: rest) (hp : top.pending = []) :
    shapeOf? p top.request.target = some top.shape ∧ Supplied p entry s top.shape.decl := by
  have hstacked := h.stacked
  rw [hs] at hstacked
  cases hstacked with
  | frame _ hshape hreported _ hneeds =>
    refine ⟨hshape, fun r hr => ?_, hreported⟩
    obtain hr | hr | hr := hneeds r hr
    · rw [hp] at hr
      cases hr
    · cases hr
    · exact hr

/-- What a target depends on has been copied before it is. -/
theorem acc_of_supplied {cur : Option Request} (h : Sound p entry cur s)
    (hshape : shapeOf? p t = some sh) (hsupplied : Supplied p entry s sh.decl) :
    Acc (fun u t => Edge p entry t u) t := by
  refine ⟨_, fun u hu => ?_⟩
  obtain ⟨sh', hsh, ⟨r, hr, rfl⟩, hsome⟩ := hu
  obtain rfl := Option.some.inj (hsh.symm.trans hshape)
  obtain hname | ⟨hnone, -⟩ := hsupplied.settled r hr
  · obtain ⟨sh'', hinlined⟩ := h.named r.target (List.ne_nil_of_mem hname)
    exact h.acc _ sh'' hinlined
  · rw [hnone] at hsome
    cases hsome

/-- The topmost frame is closed. -/
theorem close (h : Sound p entry none s) (hs : s.stack = top :: rest) (hp : top.pending = []) :
    Sound p entry none (s.pop p top rest) := by
  obtain ⟨hshape, hsupplied⟩ := h.closing hs hp
  have hstacked := h.stacked
  have hnodup := h.nodup
  rw [hs] at hstacked hnodup
  obtain ⟨hnot, hnodup⟩ := List.nodup_cons.mp hnodup
  have hrest : Stacked p entry s (some top.request) rest := by
    cases hstacked with
    | frame _ _ _ _ _ hrest => exact hrest
  have hname : top.request.localName ∈ (s.pop p top rest).namesOf top.request.target :=
    State.localName_mem_bind
  refine ⟨?_, ?_, ?_, ?_, ?_, ?_, ?_⟩
  · rw [State.stack_pop]
    exact (Grows.pop.stacked hrest).settle (.inl hname)
  · rw [State.stack_pop]
    exact hnodup
  · intro t
    rw [State.stack_pop, State.progressOf_pop]
    by_cases ht : top.request.target = t
    · rw [if_pos ht]
      rw [← ht]
      exact ⟨nofun, fun hmem => absurd hmem hnot⟩
    · rw [if_neg ht, h.inlining_iff, hs]
      refine ⟨fun hmem => ?_, List.mem_cons_of_mem _⟩
      exact (List.mem_cons.mp hmem).resolve_left (Ne.symm ht)
  · intro t sh' ht
    obtain ⟨rfl, rfl⟩ | ht := State.inlined_of_pop ht
    · exact hshape
    · exact h.shape t sh' ht
  · intro t sh' ht
    obtain ⟨-, rfl⟩ | ht := State.inlined_of_pop ht
    · exact Grows.pop.supplied hsupplied
    · exact Grows.pop.supplied (h.supplied t sh' ht)
  · intro t sh' ht
    obtain ⟨rfl, rfl⟩ | ht := State.inlined_of_pop ht
    · exact h.acc_of_supplied hshape hsupplied
    · exact h.acc t sh' ht
  · intro t
    rw [State.progressOf_pop]
    split
    · exact fun _ => ⟨_, rfl⟩
    · next ht =>
      unfold State.pop
      rw [State.namesOf_bind_of_ne ht]
      exact h.named t

/-- **Every step keeps a state sound.** -/
theorem step (h : Sound p entry none s) (hs : Step p entry s s') : Sound p entry none s' := by
  cases hs with
  | remark hs => exact h.remark hs
  | ask hstack hr hs => exact (h.ask hstack hr).serve hs
  | need hstack hp hs => exact (h.need hstack hp).serve hs
  | close hstack hp => exact h.close hstack hp

theorem steps (h : Sound p entry none s) (hs : Steps p entry s s') : Sound p entry none s' := by
  induction hs with
  | refl => exact h
  | tail _ hstep ih => exact ih.step hstep

end Sound

/-! ### What is asked for is settled in the end -/

theorem Serves.grows (h : Serves p entry s r s') : Grows s s' := by
  cases h with
  | known => exact .bind
  | opened => exact .push
  | refused _ hd => exact .remark (.warn hd)

theorem Step.grows (h : Step p entry s s') : Grows s s' := by
  cases h with
  | remark h => exact .remark h
  | ask _ _ h => exact h.grows
  | need _ _ h => exact ⟨h.grows.names, h.grows.blemished, h.grows.quiet⟩
  | close => exact .pop

/-- The request is settled, or a frame is open for it. -/
def Pledged (p : Program) (s : State) (r : Request) : Prop :=
  Settled p s r ∨ ∃ f ∈ s.stack, f.request = r

theorem Serves.stack_suffix (h : Serves p entry s r s') : ∀ f ∈ s.stack, f ∈ s'.stack := by
  cases h with
  | known =>
    rw [State.stack_bind]
    exact fun _ h => h
  | opened => exact fun _ => List.mem_cons_of_mem _
  | refused => exact fun _ h => h

/-- Whoever is served is settled, or waits for its frame. -/
theorem Serves.pledged (h : Serves p entry s r s') : Pledged p s' r := by
  cases h with
  | known => exact .inl (.inl State.localName_mem_bind)
  | opened => exact .inr ⟨_, List.mem_cons_self, rfl⟩
  | refused hsh hd => exact .inl (.inr ⟨hsh, State.blemished_warn.mpr (.inr hd.1)⟩)

theorem Pledged.step (h : Pledged p s r) (hs : Step p entry s s') : Pledged p s' r := by
  obtain h | ⟨f, hf, rfl⟩ := h
  · exact .inl (hs.grows.settled h)
  cases hs with
  | remark hs =>
    rw [← hs.travel.1] at hf
    exact .inr ⟨f, hf, rfl⟩
  | ask hstack =>
    rw [hstack] at hf
    cases hf
  | need hstack hp hs =>
    rw [hstack] at hf
    rcases List.mem_cons.mp hf with rfl | hf
    · exact .inr ⟨_, hs.stack_suffix _ List.mem_cons_self, rfl⟩
    · exact .inr ⟨f, hs.stack_suffix _ (List.mem_cons_of_mem _ hf), rfl⟩
  | close hstack hp =>
    rw [hstack] at hf
    rcases List.mem_cons.mp hf with rfl | hf
    · exact .inl (.inl State.localName_mem_bind)
    · exact .inr ⟨f, by rwa [State.stack_pop], rfl⟩

theorem Pledged.steps (h : Pledged p s r) (hs : Steps p entry s s') : Pledged p s' r := by
  induction hs with
  | refl => exact h
  | tail _ hstep ih => exact ih.step hstep

/-- A request that has been served is settled when no frame is open. -/
theorem Fulfilled.settled {start : State} (h : Fulfilled p entry start r s) (hs : s.stack = []) :
    Settled p s r := by
  obtain ⟨s₁, s₂, -, -, hserves, hsteps⟩ := h
  obtain h | ⟨f, hf, -⟩ := hserves.pledged.steps hsteps
  · exact h
  · rw [hs] at hf
    cases hf

/-- What the imports of the entry ask for is settled when a bundle succeeds. -/
theorem asked_settled {strict : Bool} {body : List String} {q : Program}
    (h : (Bundle.run entry strict).run p = ((.ok body, s), q)) :
    ∀ r, Asked p entry r → Settled p s r := by
  obtain ⟨-, -, hstack, hdone⟩ := run_ok h
  rintro r ⟨imp, himp, b, hb, hr⟩
  exact (((hdone imp himp).bindings b hb).served r hr).settled hstack

end Bundle
end Moniker
