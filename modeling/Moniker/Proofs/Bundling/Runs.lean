/-
# Runs of a bundle

A step of a bundle may fail, changes a state, and asks the program.  The first lemmas
say how steps run after each other.

The program is asked where aliases end and remembers the answers.  `Ensures p m s Q`
says of a step `m` that from the state `s`, whatever has been remembered since `p`, it
ends in `Q`, again with nothing but answers remembered.  So what a bundle does can be
told from the program `p` it starts with.
-/

import Moniker.Bundle
import Moniker.Proofs.Bundling.Aliases

namespace Moniker
namespace Bundle

open Program (Remembers)

section Runs

variable {α β : Type} {m : BundleM α} {f : α → BundleM β} {s s' : State} {q q' : Program}
  {a : α} {d : Diagnostic}

theorem run_bind (m : BundleM α) (f : α → BundleM β) (s : State) (q : Program) :
    (m >>= f).run.run s q =
      (ExceptT.bindCont f (m.run.run s q).1.1).run (m.run.run s q).1.2 (m.run.run s q).2 := rfl

theorem run_bind_ok (h : m.run.run s q = ((.ok a, s'), q')) :
    (m >>= f).run.run s q = (f a).run.run s' q' := by
  rw [run_bind, h]
  rfl

theorem run_bind_error (h : m.run.run s q = ((.error d, s'), q')) :
    (m >>= f).run.run s q = ((.error d, s'), q') := by
  rw [run_bind, h]
  rfl

theorem throw_bind (d : Diagnostic) (f : α → BundleM β) : (throw d >>= f) = throw d := rfl

theorem run_attempt {r : Except Diagnostic α} (h : m.run.run s q = ((r, s'), q')) :
    (attempt m).run.run s q = ((.ok r, s'), q') := by
  have hrun : (attempt m).run.run s q =
      ((.ok (m.run.run s q).1.1, (m.run.run s q).1.2), (m.run.run s q).2) := rfl
  rw [hrun, h]

end Runs

/-- The step ends as `Q` says, for any program that remembers more than `p`. -/
def Ensures (p : Program) (m : BundleM α) (s : State) (Q : Except Diagnostic α → State → Prop) :
    Prop :=
  ∀ q, p.Remembers q → ∃ r s' q', m.run.run s q = ((r, s'), q') ∧ p.Remembers q' ∧ Q r s'

/-- A way to end: one for success, one for failure. -/
def Ends (ok : α → State → Prop) (error : Diagnostic → State → Prop) :
    Except Diagnostic α → State → Prop
  | .ok a, s => ok a s
  | .error d, s => error d s

namespace Ensures

variable {α β : Type} {p : Program} {s : State} {m : BundleM α} {f : α → BundleM β}
  {Q Q' : Except Diagnostic α → State → Prop} {R : Except Diagnostic β → State → Prop}

theorem pure {a : α} (h : Q (.ok a) s) : Ensures p (Pure.pure a) s Q :=
  fun q hq => ⟨_, _, q, rfl, hq, h⟩

theorem throw {d : Diagnostic} (h : Q (.error d) s) :
    Ensures p (MonadExceptOf.throw d : BundleM α) s Q :=
  fun q hq => ⟨_, _, q, rfl, hq, h⟩

theorem mono (hm : Ensures p m s Q) (h : ∀ r s', Q r s' → Q' r s') : Ensures p m s Q' := by
  intro q hq
  obtain ⟨r, s', q', hrun, hq', hr⟩ := hm q hq
  exact ⟨r, s', q', hrun, hq', h r s' hr⟩

/-- One step after another: the second is not reached if the first fails. -/
theorem bind (hm : Ensures p m s Q) (hok : ∀ a s', Q (.ok a) s' → Ensures p (f a) s' R)
    (herror : ∀ d s', Q (.error d) s' → R (.error d) s') : Ensures p (m >>= f) s R := by
  intro q hq
  obtain ⟨r, s', q', hrun, hq', hr⟩ := hm q hq
  cases r with
  | ok a =>
    rw [run_bind_ok hrun]
    exact hok a s' hr q' hq'
  | error d =>
    rw [run_bind_error hrun]
    exact ⟨.error d, s', q', rfl, hq', herror d s' hr⟩

/-- A step whose problem is handled by the next one. -/
theorem attempt {f : Except Diagnostic α → BundleM β} (hm : Ensures p m s Q)
    (h : ∀ r s', Q r s' → Ensures p (f r) s' R) : Ensures p (attempt m >>= f) s R := by
  intro q hq
  obtain ⟨r, s', q', hrun, hq', hr⟩ := hm q hq
  rw [run_bind_ok (run_attempt hrun)]
  exact h r s' hr q' hq'

/-- The program is asked. -/
theorem program {f : Program → BundleM β} (h : ∀ q, p.Remembers q → Ensures p (f q) s R) :
    Ensures p (getThe Program >>= f) s R := fun q hq => h q hq q hq

theorem ofProgram {g : Program → α} (h : ∀ q, p.Remembers q → Ensures p (f (g q)) s R) :
    Ensures p (ofProgram g >>= f) s R := fun q hq => h q hq q hq

theorem reads {g : Program → α} (h : ∀ q, p.Remembers q → Q (.ok (g q)) s) :
    Ensures p (Bundle.ofProgram g) s Q := fun q hq => ⟨_, _, q, rfl, hq, h q hq⟩

/-- The program answers, and may remember the answer. -/
theorem answer {b : Build α} {a : α}
    (hb : ∀ q, p.Remembers q → ∃ q', p.Remembers q' ∧ b.run q = (a, q'))
    (h : Ensures p (f a) s R) : Ensures p (liftM b >>= f) s R := by
  intro q hq
  obtain ⟨q', hq', hrun⟩ := hb q hq
  have hlift : (liftM b : BundleM α).run.run s q = ((.ok (b.run q).1, s), (b.run q).2) := rfl
  rw [hrun] at hlift
  rw [run_bind_ok hlift]
  exact h q' hq'

/-- The state is looked at. -/
theorem state {f : State → BundleM β} (h : Ensures p (f s) s R) :
    Ensures p (getThe State >>= f) s R := h

theorem modified {g : State → State} {Q : Except Diagnostic PUnit → State → Prop}
    (h : Q (.ok ⟨⟩) (g s)) : Ensures p (modifyThe State g) s Q :=
  fun q hq => ⟨_, _, q, rfl, hq, h⟩

theorem changed {g : Program → State → State} {Q : Except Diagnostic Unit → State → Prop}
    (h : ∀ q, p.Remembers q → Q (.ok ()) (g q s)) : Ensures p (Bundle.change g) s Q :=
  fun q hq => ⟨_, _, q, rfl, hq, h q hq⟩

theorem warned {d : Diagnostic} {Q : Except Diagnostic Unit → State → Prop}
    (h : Q (.ok ()) (s.warn d)) : Ensures p (Bundle.warn d) s Q :=
  fun q hq => ⟨_, _, q, rfl, hq, h⟩

/-- The state is changed. -/
theorem modify {g : State → State} {f : PUnit → BundleM β} (h : Ensures p (f ⟨⟩) (g s) R) :
    Ensures p (modifyThe State g >>= f) s R := fun q hq => h q hq

/-- The state is changed by what the program says. -/
theorem change {g : Program → State → State} {f : Unit → BundleM β}
    (h : ∀ q, p.Remembers q → Ensures p (f ()) (g q s) R) : Ensures p (change g >>= f) s R :=
  fun q hq => h q hq q hq

theorem warn {d : Diagnostic} {f : Unit → BundleM β} (h : Ensures p (f ()) (s.warn d) R) :
    Ensures p (warn d >>= f) s R := fun q hq => h q hq

/-- What holds on the way through a list holds at its end. -/
theorem mapM {γ : Type} {g : γ → BundleM β} {I : List γ → List β → State → Prop}
    {E : Diagnostic → State → Prop} {xs : List γ} (hnil : I [] [] s)
    (hstep : ∀ ys bs x s', I ys bs s' → x ∈ xs →
      Ensures p (g x) s' (Ends (fun b => I (ys ++ [x]) (bs ++ [b])) E)) :
    Ensures p (xs.mapM g) s (Ends (I xs) E) := by
  -- Generalised over what has been done.
  have hrest : ∀ zs ys bs s, I ys bs s → (∀ x ∈ zs, x ∈ xs) →
      Ensures p (zs.mapM g) s (Ends (fun cs => I (ys ++ zs) (bs ++ cs)) E) := by
    intro zs
    induction zs with
    | nil =>
      intro ys bs s hs _
      rw [List.mapM_nil]
      refine .pure ?_
      simpa [Ends] using hs
    | cons z zs ih =>
      intro ys bs s hs hmem
      rw [List.mapM_cons]
      refine (hstep ys bs z s hs (hmem z List.mem_cons_self)).bind (fun b s₁ h₁ => ?_)
        fun _ _ h => h
      refine (ih _ _ s₁ h₁ fun x hx => hmem x (List.mem_cons_of_mem _ hx)).bind
        (fun cs s₂ h₂ => ?_) fun _ _ h => h
      refine .pure ?_
      simpa [Ends] using h₂
  simpa using hrest xs [] [] s hnil fun _ h => h

theorem foldlM {γ : Type} {g : β → γ → BundleM β} {I : List γ → State → Prop}
    {E : Diagnostic → State → Prop} {xs : List γ} {b : β} (hnil : I [] s)
    (hstep : ∀ ys b x s', I ys s' → x ∈ xs →
      Ensures p (g b x) s' (Ends (fun _ => I (ys ++ [x])) E)) :
    Ensures p (xs.foldlM g b) s (Ends (fun _ => I xs) E) := by
  have hrest : ∀ zs ys b s, I ys s → (∀ x ∈ zs, x ∈ xs) →
      Ensures p (zs.foldlM g b) s (Ends (fun _ => I (ys ++ zs)) E) := by
    intro zs
    induction zs with
    | nil =>
      intro ys b s hs _
      refine .pure ?_
      simpa [Ends] using hs
    | cons z zs ih =>
      intro ys b s hs hmem
      rw [List.foldlM_cons]
      refine (hstep ys b z s hs (hmem z List.mem_cons_self)).bind (fun b' s₁ h₁ => ?_)
        fun _ _ h => h
      simpa using ih _ b' s₁ h₁ fun x hx => hmem x (List.mem_cons_of_mem _ hx)
  simpa using hrest xs [] b s hnil fun _ h => h

end Ensures

end Bundle

/-! ### The outcome -/

open Moniker.Bundle

theorem value_bundle (p : Program) (path : String) (strict : Bool) :
    ((bundle path strict).value p).1 =
      match p.fileAt? path with
      | none => .error (.of .fileNotFound ("entry " ++ path ++ " is not part of the program"))
      | some entry =>
        match (Bundle.run entry strict).run p with
        | ((.error d, _), _) => .error (.coded d)
        | ((.ok body, s), q) => .ok (s.result q.source entry body) := by
  unfold bundle
  rw [Build.value_bind, Build.value_read, Build.after_read]
  cases p.fileAt? path with
  | none => rfl
  | some entry =>
    dsimp only
    rw [Build.value_bind]
    unfold Build.value Build.after
    rcases (Bundle.run entry strict).run p with ⟨⟨d | body, s⟩, q⟩
    · rfl
    · rfl

/-- A bundle succeeds with its lines and what is left of the entry's statements. -/
theorem bundle_ok_iff {p : Program} {path : String} {strict : Bool} {r : BundleResult} :
    ((bundle path strict).value p).1 = .ok r ↔ ∃ entry body s q, p.fileAt? path = some entry ∧
      (Bundle.run entry strict).run p = ((.ok body, s), q) ∧ r = s.result q.source entry body := by
  rw [value_bundle]
  constructor
  · intro h
    split at h
    · cases h
    split at h
    · cases h
    · next entry hentry _ body s q hrun =>
      exact ⟨entry, body, s, q, hentry, hrun, (Except.ok.inj h).symm⟩
  · rintro ⟨entry, body, s, q, hentry, hrun, rfl⟩
    rw [hentry]
    dsimp only
    rw [hrun]

/-- A bundle fails without an entry, or of a problem on the way. -/
theorem bundle_error_iff {p : Program} {path : String} {strict : Bool} {f : Failure} :
    ((bundle path strict).value p).1 = .error f ↔
      (p.fileAt? path = none ∧
        f = .of .fileNotFound ("entry " ++ path ++ " is not part of the program")) ∨
      ∃ entry d s q, p.fileAt? path = some entry ∧
        (Bundle.run entry strict).run p = ((.error d, s), q) ∧ f = .coded d := by
  rw [value_bundle]
  constructor
  · intro h
    split at h
    · next hentry => exact .inl ⟨hentry, (Except.error.inj h).symm⟩
    split at h
    · next entry hentry _ d s q hrun =>
      exact .inr ⟨entry, d, s, q, hentry, hrun, (Except.error.inj h).symm⟩
    · cases h
  · rintro (⟨hentry, rfl⟩ | ⟨entry, d, s, q, hentry, hrun, rfl⟩)
    · rw [hentry]
    · rw [hentry]
      dsimp only
      rw [hrun]

end Moniker
