/-
# What a session does to the disk

A rule for each way of putting sessions together: if a part leaves the disk with some
property it had before, and ends in a value of some kind if it does not fail, so does the
whole (`Session.Gives`).  A session that only logs, asks for ids or looks at the clock
leaves the disk with every property it had.
-/

import Moniker.Command.Session

namespace Moniker
namespace Session

variable {α β : Type} {D : Disk → Prop} {P Q : α → Prop} {R : β → Prop} {x : Session α}

/-- How a session goes from a state: how it ends, and the state after it. -/
def exec (x : Session α) (around : Surroundings) (s : SessionState) :
    Except Failure α × SessionState :=
  (x.run around).run.run s

/-- From a disk with the property `D` the session leads to a disk with that property, and
its value, if it does not fail, is one of `Q`. -/
def Gives (D : Disk → Prop) (x : Session α) (Q : α → Prop) : Prop :=
  ∀ around s, D s.world.disk →
    D (x.exec around s).2.world.disk ∧ ∀ a, (x.exec around s).1 = .ok a → Q a

/-! ### Putting sessions together -/

theorem exec_bind (x : Session α) (f : α → Session β) (around : Surroundings) (s : SessionState) :
    (x >>= f).exec around s = match x.exec around s with
      | (.ok a, s') => (f a).exec around s'
      | (.error e, s') => (.error e, s') := by
  simp only [exec, ReaderT.run_bind, ExceptT.run_bind, StateT.run_bind]
  generalize (x.run around).run.run s = r
  rcases r with ⟨_ | a, s'⟩
  · rfl
  · rfl

theorem exec_tryCatch (x : Session α) (f : Failure → Session α) (around : Surroundings)
    (s : SessionState) : (tryCatch x f).exec around s = match x.exec around s with
      | (.ok a, s') => (.ok a, s')
      | (.error e, s') => (f e).exec around s' := by
  unfold exec
  change (tryCatch (x.run around) fun e => (f e).run around).run.run s = _
  rw [ExceptT.run_tryCatch, StateT.run_bind]
  generalize (x.run around).run.run s = r
  rcases r with ⟨_ | a, s'⟩
  · rfl
  · rfl

theorem exec_attempt (x : Session α) (around : Surroundings) (s : SessionState) :
    (attempt x).exec around s = (.ok (x.exec around s).1, (x.exec around s).2) := by
  rw [attempt, exec_tryCatch, exec_bind]
  rcases x.exec around s with ⟨_ | a, s'⟩
  · rfl
  · rfl

theorem Gives.mono (h : Gives D x P) (hPQ : ∀ a, P a → Q a) : Gives D x Q :=
  fun around s hs => ⟨(h around s hs).1, fun a ha => hPQ a ((h around s hs).2 a ha)⟩

theorem Gives.pure {a : α} (h : Q a) : Gives D (Pure.pure a) Q := by
  rintro around s hs
  refine ⟨hs, fun b hb => ?_⟩
  obtain rfl : a = b := Except.ok.inj hb
  exact h

theorem Gives.fail (f : Failure) : Gives D (throw f : Session α) Q :=
  fun _ _ hs => ⟨hs, fun _ ha => nomatch ha⟩

/-- **One session after another.** -/
theorem Gives.bind {f : α → Session β} (hx : Gives D x P) (hf : ∀ a, P a → Gives D (f a) R) :
    Gives D (x >>= f) R := by
  intro around s hs
  obtain ⟨hdisk, hval⟩ := hx around s hs
  rw [exec_bind]
  split
  · next a s' hrun =>
    rw [hrun] at hdisk hval
    exact hf a (hval a rfl) around s' hdisk
  · next e s' hrun =>
    rw [hrun] at hdisk
    exact ⟨hdisk, fun _ hb => nomatch hb⟩

/-- One of two sessions and then another. -/
theorem Gives.either {c : Prop} [Decidable c] {y : Session α} {f : α → Session β}
    (hx : Gives D x P) (hy : Gives D y P) (hf : ∀ a, P a → Gives D (f a) R) :
    Gives D (if c then x >>= f else y >>= f) R := by
  split
  · exact hx.bind hf
  · exact hy.bind hf

/-- What an attempt tells of a session that did not fail. -/
def Succeeds (Q : α → Prop) : Except Failure α → Prop
  | .ok a => Q a
  | .error _ => True

theorem Gives.attempt (h : Gives D x Q) : Gives D (attempt x) (Succeeds Q) := by
  intro around s hs
  obtain ⟨hdisk, hval⟩ := h around s hs
  rw [exec_attempt]
  refine ⟨hdisk, fun r hr => ?_⟩
  obtain rfl := Except.ok.inj hr
  cases hx : (x.exec around s).1 with
  | error e => trivial
  | ok a => exact hval a hx

theorem Gives.ofExcept {r : Except Failure α} (h : ∀ a, r = .ok a → Q a) :
    Gives D (ofExcept r) Q := by
  cases r with
  | error f => exact .fail f
  | ok a => exact .pure (h a rfl)

theorem Gives.forM {f : β → Session Unit} {l : List β}
    (h : ∀ b ∈ l, Gives D (f b) fun _ => True) : Gives D (l.forM f) fun _ => True := by
  induction l with
  | nil => exact .pure trivial
  | cons b l ih =>
    change Gives D (f b >>= fun _ => l.forM f) _
    exact (h b List.mem_cons_self).bind fun _ _ => ih fun c hc => h c (List.mem_cons_of_mem _ hc)

theorem Gives.forIn {f : β → PUnit → Session (ForInStep PUnit)} {l : List β}
    (h : ∀ b ∈ l, Gives D (f b ⟨⟩) fun _ => True) :
    Gives D (forIn l PUnit.unit f) fun _ => True := by
  induction l with
  | nil => exact .pure trivial
  | cons b l ih =>
    rw [List.forIn_cons]
    refine (h b List.mem_cons_self).bind fun step _ => ?_
    cases step with
    | done => exact .pure trivial
    | yield => exact ih fun c hc => h c (List.mem_cons_of_mem _ hc)

/-- **A session for each member of a list** gives the values of these sessions. -/
theorem Gives.mapM {γ : Type} {f : γ → Session α} {l : List γ} {Q : γ → α → Prop}
    (h : ∀ c ∈ l, Gives D (f c) (Q c)) :
    Gives D (l.mapM f) fun as => ∀ a ∈ as, ∃ c ∈ l, Q c a := by
  induction l with
  | nil =>
    rw [List.mapM_nil]
    exact .pure nofun
  | cons c l ih =>
    rw [List.mapM_cons]
    refine (h c List.mem_cons_self).bind fun a ha => ?_
    refine (ih fun d hd => h d (List.mem_cons_of_mem _ hd)).bind fun as has => .pure ?_
    intro b hb
    rcases List.mem_cons.mp hb with rfl | hb
    · exact ⟨c, List.mem_cons_self, ha⟩
    · obtain ⟨d, hd, hQ⟩ := has b hb
      exact ⟨d, List.mem_cons_of_mem _ hd, hQ⟩

/-! ### Single steps -/

/-- The session looks at what is there and at nothing but the disk does it change nothing. -/
theorem Gives.modify {f : SessionState → SessionState}
    (h : ∀ s, D s.world.disk → D (f s).world.disk) :
    Gives D (modify f : Session Unit) fun _ => True :=
  fun _ s hs => ⟨h s hs, fun _ _ => trivial⟩

theorem Gives.get : Gives D (get : Session SessionState) fun s => D s.world.disk :=
  fun _ _ hs => ⟨hs, fun _ ha => Except.ok.inj ha ▸ hs⟩

theorem Gives.read : Gives D (read : Session Surroundings) fun _ => True :=
  fun _ _ hs => ⟨hs, fun _ _ => trivial⟩

theorem Gives.disk : Gives D Session.disk D := Gives.get.bind fun _ hs => .pure hs

theorem Gives.onDisk {f : Disk → Disk} (h : ∀ d, D d → D (f d)) :
    Gives D (onDisk f) fun _ => True := .modify fun _ hs => h _ hs

theorem Gives.freshId : Gives D freshId fun _ => True :=
  Gives.get.bind fun _ _ => .bind (.modify fun _ hs => hs) fun _ _ =>
    Gives.read.bind fun _ _ => .pure trivial

theorem Gives.now : Gives D now fun _ => True :=
  Gives.get.bind fun _ _ => .bind (.modify fun _ hs => hs) fun _ _ =>
    Gives.read.bind fun _ _ => .pure trivial

theorem Gives.log (logger : Logger) (level : Level) (message : String)
    (attributes : List LogAttribute) :
    Gives D (log logger level message attributes) fun _ => True :=
  Gives.read.bind fun _ _ => Gives.get.bind fun _ _ => Gives.modify fun _ hs => hs

end Session
end Moniker
