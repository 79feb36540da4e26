/-
# Whose the names are

A top-level name of a bundle is taken by a symbol that the entry declares under it, or by
a target that is made available under it.  A name that is taken again by another symbol is
reported, so in a bundle without reports every name is taken by one symbol (`Owned.unique`).
-/

import Moniker.Proofs.Bundling.Traversal

namespace Moniker
namespace Bundle

variable {p : Program} {entry : FileId} {s s' : State} {r : Request} {sh : Shape} {t u : SymbolId}
  {name : String} {n : NodeId}

/-- The entry declares the symbol under a name at its top level. -/
def Declares (p : Program) (entry : FileId) (name : String) (t : SymbolId) : Prop :=
  (entryOwners p entry)[name]? = some t

/-- A top-level name is taken by a symbol. -/
def Takes (p : Program) (entry : FileId) (s : State) (name : String) (t : SymbolId) : Prop :=
  Declares p entry name t ∨ name ∈ s.namesOf t

theorem State.owners_addName : (s.addName p t name n).owners = s.owners.insert name t := by
  unfold State.addName State.claim
  dsimp only
  split <;> rfl

/-- Whoever is given a name takes it, and nobody else. -/
theorem takes_addName {name' : String} : Takes p entry (s.addName p t name n) name' u ↔
    Takes p entry s name' u ∨ (name = name' ∧ t = u) := by
  unfold Takes
  rw [Added.addName.names, List.mem_append, or_assoc]
  refine or_congr_right (or_congr_right ?_)
  split
  · next ht => simp [ht, eq_comm]
  · next ht => simp [ht]

theorem takes_congr (h : s'.bound = s.bound) : Takes p entry s' name t ↔ Takes p entry s name t := by
  unfold Takes State.namesOf
  rw [h]

/-- Whoever takes a name is on record for it. -/
def Owned (p : Program) (entry : FileId) (s : State) : Prop :=
  ∀ name t, Takes p entry s name t → s.owners[name]? = some t

namespace Owned

/-- A name is taken by one symbol. -/
theorem unique (h : Owned p entry s) (ht : Takes p entry s name t) (hu : Takes p entry s name u) :
    t = u := Option.some.inj ((h name t ht).symm.trans (h name u hu))

theorem start (p : Program) (entry : FileId) : Owned p entry (.start p entry) := by
  rintro name t (h | h)
  · exact h
  · simp [State.start, State.namesOf] at h

theorem congr (h : Owned p entry s) (howners : s'.owners = s.owners) (hbound : s'.bound = s.bound) :
    Owned p entry s' := by
  intro name t ht
  rw [howners]
  exact h name t ((takes_congr hbound).mp ht)

/-- A name is given to a target, if no other symbol has it. -/
theorem addName (h : Owned p entry s) (hq : (s.addName p t name n).Quiet) :
    Owned p entry (s.addName p t name n) := by
  obtain ⟨-, hfree⟩ := State.quiet_addName hq
  intro name' u hu
  rw [State.owners_addName, Table.getElem?_insert]
  -- Taken before, or just now.
  have hcases := takes_addName.mp hu
  by_cases hname : name = name'
  · rw [if_pos (beq_iff_eq.mpr hname)]
    obtain hu | ⟨-, rfl⟩ := hcases
    · rw [hfree u (hname ▸ h name' u hu)]
    · rfl
  · rw [if_neg (by simpa using hname)]
    obtain hu | ⟨rfl, -⟩ := hcases
    · exact h name' u hu
    · exact absurd rfl hname

theorem introduce (h : Owned p entry s) (hq : (s.introduce p r sh).Quiet) :
    Owned p entry (s.introduce p r sh) := by
  obtain ⟨ls, emitted, heq⟩ | ⟨ls, emitted, l, heq⟩ := introduce_cases p s r sh
  · rw [heq]
    exact h.congr rfl rfl
  · rw [heq] at hq ⊢
    have hlines : Owned p entry { s with lines := ls, emitted := emitted } := h.congr rfl rfl
    exact (hlines.addName ((State.quiet_congr rfl).mp hq)).congr rfl rfl

theorem bind (h : Owned p entry s) (hq : (s.bind p r sh).Quiet) :
    Owned p entry (s.bind p r sh) := by
  unfold State.bind at hq ⊢
  split at hq
  · next hbound => rwa [if_pos hbound]
  · next hbound =>
    rw [if_neg hbound]
    have hadded := State.quiet_hoisted.mp hq
    exact ((h.introduce (State.quiet_addName hadded).1).addName hadded).congr rfl rfl

theorem serve (h : Owned p entry s) (hs : Serves p entry s r s') (hq : s'.Quiet) :
    Owned p entry s' := by
  cases hs with
  | known => exact h.bind hq
  | opened => exact h.congr rfl rfl
  | refused => exact absurd hq State.not_quiet_warn

/-- **Every step without a report keeps the names apart.** -/
theorem step (h : Owned p entry s) (hs : Step p entry s s') (hq : s'.Quiet) : Owned p entry s' := by
  cases hs with
  | remark hs =>
    cases hs with
    | warn => exact absurd hq State.not_quiet_warn
    | keep line =>
      unfold State.keepImport
      split <;> exact h.congr rfl rfl
  | ask _ _ hs => exact h.serve hs hq
  | @need top rest dep deps _ _ _ hs =>
    have hrestacked : Owned p entry { s with stack := { top with pending := deps } :: rest } :=
      h.congr rfl rfl
    exact hrestacked.serve hs hq
  | @close top rest =>
    have hclosed : Owned p entry { s with
        stack := rest
        progress := s.progress.insert top.request.target (.inlined top.shape) } := h.congr rfl rfl
    exact hclosed.bind hq

theorem steps (h : Owned p entry s) (hs : Steps p entry s s') (hq : s'.Quiet) :
    Owned p entry s' := by
  induction hs with
  | refl => exact h
  | tail _ hstep ih => exact (ih (hstep.grows.quiet hq)).step hstep hq

end Owned

end Bundle
end Moniker
