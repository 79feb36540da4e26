/-
# What is reported

A lax bundle reports what would end a strict one, and any bundle reports name collisions.

| the state is | if |
| --- | --- |
| `Blemished` | something else than a name collision has been reported |
| `Quiet` | nothing has been reported |

Copying reports name collisions only, so it leaves a state blemished or unblemished.  What
has been reported stays: a state is quiet only if the states before it were.
-/

import Moniker.Proofs.Bundling.Copying

namespace Moniker
namespace Bundle

/-- A problem that a lax bundle can report instead of failing. -/
def Minor (d : Diagnostic) : Prop := d.code ≠ .nameCollision ∧ d.code ≠ .cyclicDependency

namespace State

variable {p : Program} {s s' : State} {d : Diagnostic} {r : Request} {sh : Shape}
  {t : SymbolId} {n : NodeId} {name line : String} {h : Hoisted}

/-- Has something been reported that ends a strict bundle? -/
def Blemished (s : State) : Prop :=
  ∃ d, BundleEvent.warned d ∈ s.events ∧ d.code ≠ .nameCollision

/-- Has nothing been reported? -/
def Quiet (s : State) : Prop := ∀ d, BundleEvent.warned d ∉ s.events

theorem Quiet.not_blemished (hs : s.Quiet) : ¬ s.Blemished := fun ⟨d, hd, _⟩ => hs d hd

theorem not_quiet_warn : ¬ (s.warn d).Quiet := fun hs => hs d (by simp [warn])

theorem mem_diagnostics {src : Source} {entry : FileId} {body : List String} :
    d ∈ (s.result src entry body).diagnostics ↔ BundleEvent.warned d ∈ s.events := by
  unfold BundleResult.diagnostics result
  rw [List.mem_filterMap]
  constructor
  · rintro ⟨e, he, hd⟩
    cases e with
    | hoisted => cases hd
    | warned e =>
      obtain rfl := Option.some.inj hd
      exact Array.mem_toList_iff.mp he
  · exact fun h => ⟨_, Array.mem_toList_iff.mpr h, rfl⟩

theorem blemished_congr (h : s'.events = s.events) : s'.Blemished ↔ s.Blemished := by
  rw [Blemished, h]
  rfl

theorem quiet_congr (h : s'.events = s.events) : s'.Quiet ↔ s.Quiet := by
  rw [Quiet, h]
  rfl

@[simp] theorem blemished_warn :
    (s.warn d).Blemished ↔ s.Blemished ∨ d.code ≠ .nameCollision := by
  simp [Blemished, warn, or_and_right, exists_or]

theorem blemished_hoisted :
    ({ s with events := s.events.push (.hoisted t h) } : State).Blemished ↔ s.Blemished := by
  simp [Blemished]

theorem quiet_hoisted :
    ({ s with events := s.events.push (.hoisted t h) } : State).Quiet ↔ s.Quiet := by
  simp [Quiet]

@[simp] theorem blemished_keepImport : (s.keepImport line).Blemished ↔ s.Blemished := by
  unfold keepImport
  split <;> rfl

theorem quiet_keepImport : (s.keepImport line).Quiet ↔ s.Quiet := by
  unfold keepImport
  split <;> rfl

theorem blemished_addName : (s.addName p t name n).Blemished ↔ s.Blemished := by
  rw [addName, blemished_congr rfl, claim, blemished_congr rfl]
  split
  · exact blemished_warn.trans (or_iff_left fun h => h rfl)
  · rfl

/-- Without a report a name is taken that no other symbol has. -/
theorem quiet_addName (hs : (s.addName p t name n).Quiet) :
    s.Quiet ∧ ∀ u, s.owners[name]? = some u → u = t := by
  have hclaim : (s.claim p name t n).Quiet := hs
  unfold claim at hclaim
  dsimp only at hclaim
  split at hclaim
  · next u _ =>
    exact absurd (show BundleEvent.warned _ ∈ (s.warn _).events from Array.mem_push_self) (hclaim _)
  · next hnone =>
    refine ⟨hclaim, fun u hu => ?_⟩
    rw [hu] at hnone
    simpa using hnone

theorem blemished_introduce : (s.introduce p r sh).Blemished ↔ s.Blemished := by
  obtain ⟨ls, emitted, h⟩ | ⟨ls, emitted, l, h⟩ := introduce_cases p s r sh
  · rw [h]
    exact blemished_congr rfl
  · rw [h]
    exact (blemished_congr rfl).trans (blemished_addName.trans (blemished_congr rfl))

theorem quiet_introduce (hs : (s.introduce p r sh).Quiet) : s.Quiet := by
  obtain ⟨ls, emitted, h⟩ | ⟨ls, emitted, l, h⟩ := introduce_cases p s r sh
  · rw [h] at hs
    exact (quiet_congr rfl).mp hs
  · rw [h] at hs
    exact (quiet_congr rfl).mp (quiet_addName ((quiet_congr rfl).mp hs)).1

@[simp] theorem blemished_bind : (s.bind p r sh).Blemished ↔ s.Blemished := by
  unfold bind
  split
  · rfl
  · exact blemished_hoisted.trans (blemished_addName.trans blemished_introduce)

theorem quiet_bind (hs : (s.bind p r sh).Quiet) : s.Quiet := by
  unfold bind at hs
  split at hs
  · exact hs
  · exact quiet_introduce (quiet_addName (quiet_hoisted.mp hs)).1

@[simp] theorem blemished_push {deps : List Request} :
    (s.push r sh deps).Blemished ↔ s.Blemished := blemished_congr rfl

@[simp] theorem blemished_pop {top : Frame} {rest : List Frame} :
    (s.pop p top rest).Blemished ↔ s.Blemished := blemished_bind.trans (blemished_congr rfl)

theorem quiet_pop {top : Frame} {rest : List Frame} (hs : (s.pop p top rest).Quiet) : s.Quiet := by
  have hbind := @quiet_bind p { s with
    stack := rest
    progress := s.progress.insert top.request.target (.inlined top.shape) } top.request top.shape hs
  exact hbind

end State
end Bundle
end Moniker
