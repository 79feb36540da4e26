/-
# Strict and lax bundles

A lax bundle reports what would end a strict one, and goes on.  So a strict bundle
succeeds exactly if the lax one does without such a report, and then they are the same
(`bundle_strict_iff`).  Name collisions are reported by both.

`Agrees m n` compares a step `m` of a strict bundle with the same step `n` of a lax one:
they do the same, or the strict one fails and the lax one fails as well or makes a
report.  What is reported stays, so this holds of steps after each other
(`Agrees.bind`) and of problems that are handled (`Agrees.attempt`).
-/

import Moniker.Proofs.Bundling.Requests

namespace Moniker
namespace Bundle

variable {α β γ : Type}

/-- The state after a step. -/
def after (m : BundleM α) (s : State) (q : Program) : State := (m.run.run s q).1.2

/-- The step fails. -/
def Fails (m : BundleM α) (s : State) (q : Program) : Prop := ∃ d, (m.run.run s q).1.1 = .error d

/-- The step of a lax bundle fails or makes a report. -/
def Complains (m : BundleM α) (s : State) (q : Program) : Prop :=
  Fails m s q ∨ (after m s q).Blemished

/-- The step of a lax bundle takes nothing back, and does not fail of a name collision. -/
structure Lax (m : BundleM α) : Prop where
  keeps : ∀ s q, s.Blemished → (after m s q).Blemished
  code : ∀ s q d, (m.run.run s q).1.1 = .error d → d.code ≠ .nameCollision

/-- A step of a strict bundle and the same step of a lax one: as long as nothing has been
reported they do the same, unless the strict one fails and the lax one says so. -/
structure Agrees (m n : BundleM α) : Prop extends Lax n where
  same_or : ∀ s q, ¬ s.Blemished →
    (m.run.run s q = n.run.run s q ∧ ¬ (after n s q).Blemished) ∨
      (Fails m s q ∧ Complains n s q)

/-- What becomes of a problem: a strict bundle fails, and a lax one fails or reports it. -/
structure Refuses (d : Diagnostic) (m n : BundleM α) : Prop where
  fails : ∀ s q, Fails m s q
  lax : d.code ≠ .nameCollision → Lax n
  complains : d.code ≠ .nameCollision → ∀ s q, Complains n s q

namespace Refuses

variable {d : Diagnostic} {k : BundleM α}

theorem throw (d : Diagnostic) :
    Refuses d (MonadExceptOf.throw d : BundleM α) (MonadExceptOf.throw d) where
  fails _ _ := ⟨d, rfl⟩
  lax h := ⟨fun _ _ hs => hs, fun _ _ _ he => Except.error.inj he ▸ h⟩
  complains _ _ _ := .inl ⟨d, rfl⟩

theorem warn (hk : Lax k) :
    Refuses d (MonadExceptOf.throw d : BundleM α) (Bundle.warn d >>= fun _ => k) where
  fails _ _ := ⟨d, rfl⟩
  lax _ := ⟨fun s q hs => hk.keeps (s.warn d) q (State.blemished_warn.mpr (.inl hs)),
    fun s q => hk.code (s.warn d) q⟩
  complains h s q := .inr (hk.keeps (s.warn d) q (State.blemished_warn.mpr (.inr h)))

/-- A problem that ends a lax bundle only if it is a circle. -/
theorem fatal {m : BundleM α} (hk : Lax k) :
    Refuses d (if isFatal true d then MonadExceptOf.throw d else m)
      (if isFatal false d then MonadExceptOf.throw d else Bundle.warn d >>= fun _ => k) := by
  rw [if_pos (show isFatal true d = true from rfl)]
  split
  · exact throw d
  · exact warn hk

theorem modify {m n : BundleM α} {f : State → State} (hr : Refuses d m n)
    (h : ∀ s, (f s).Blemished ↔ s.Blemished) :
    Refuses d (modifyThe State f >>= fun _ => m) (modifyThe State f >>= fun _ => n) where
  fails s q := hr.fails (f s) q
  lax hd := ⟨fun s q hs => (hr.lax hd).keeps (f s) q ((h s).mpr hs),
    fun s q => (hr.lax hd).code (f s) q⟩
  complains hd s q := hr.complains hd (f s) q

end Refuses

namespace Agrees

variable {m n : BundleM α} {f g : α → BundleM β} {s s' : State} {q q' : Program}

theorem fails_bind (h : Fails m s q) : Fails (m >>= f) s q := by
  obtain ⟨d, hd⟩ := h
  exact ⟨d, by rw [run_bind, hd]; rfl⟩

/-- A step that is the same in both, and reports nothing but name collisions. -/
theorem of_steady (hstate : ∀ s q, (after m s q).Blemished ↔ s.Blemished)
    (hcode : ∀ s q d, (m.run.run s q).1.1 = .error d → d.code ≠ .nameCollision) : Agrees m m where
  keeps s q := (hstate s q).mpr
  code := hcode
  same_or s q hs := .inl ⟨rfl, fun h => hs ((hstate s q).mp h)⟩

theorem of_ok (hstate : ∀ s q, (after m s q).Blemished ↔ s.Blemished)
    (hok : ∀ s q, ∃ a, (m.run.run s q).1.1 = .ok a) : Agrees m m := by
  refine of_steady hstate fun s q d hd => ?_
  obtain ⟨a, ha⟩ := hok s q
  cases ha.symm.trans hd

theorem pure (a : α) : Agrees (Pure.pure a) (Pure.pure a) :=
  of_ok (fun _ _ => Iff.rfl) fun _ _ => ⟨_, rfl⟩

/-- A second step runs from where the first one ends, unless that fails. -/
theorem bind_cases (m : BundleM α) (f : α → BundleM β) (s : State) (q : Program) :
    (∃ a s' q', m.run.run s q = ((.ok a, s'), q') ∧
      (m >>= f).run.run s q = (f a).run.run s' q') ∨
    ∃ d s' q', m.run.run s q = ((.error d, s'), q') ∧
      (m >>= f).run.run s q = ((.error d, s'), q') := by
  rcases hrun : m.run.run s q with ⟨⟨a | d, s'⟩, q'⟩
  · exact .inr ⟨_, _, _, rfl, run_bind_error hrun⟩
  · exact .inl ⟨_, _, _, rfl, run_bind_ok hrun⟩

theorem bind (hm : Agrees m n) (hf : ∀ a, Agrees (f a) (g a)) : Agrees (m >>= f) (n >>= g) where
  keeps s q hs := by
    have hs' := hm.keeps s q hs
    unfold after at hs' ⊢
    obtain ⟨a, s', q', hn, hrun⟩ | ⟨d, s', q', hn, hrun⟩ := bind_cases n g s q
    · rw [hn] at hs'
      rw [hrun]
      exact (hf a).keeps s' q' hs'
    · rw [hn] at hs'
      rw [hrun]
      exact hs'
  code s q d hd := by
    obtain ⟨a, s', q', hn, hrun⟩ | ⟨e, s', q', hn, hrun⟩ := bind_cases n g s q
    · rw [hrun] at hd
      exact (hf a).code s' q' d hd
    · rw [hrun] at hd
      obtain rfl := Except.error.inj hd
      exact hm.code s q e (by rw [hn])
  same_or s q hs := by
    unfold Complains Fails after
    have hm' := hm.same_or s q hs
    unfold Complains Fails after at hm'
    obtain ⟨a, s', q', hn, hrun⟩ | ⟨d, s', q', hn, hrun⟩ := bind_cases n g s q
    · rw [hn] at hm'
      rw [hrun]
      obtain ⟨hsame, hs'⟩ | ⟨hfails, ⟨d, hd⟩ | hs'⟩ := hm'
      · rw [run_bind_ok hsame]
        exact (hf a).same_or s' q' hs'
      · cases hd
      · exact .inr ⟨fails_bind hfails, .inr ((hf a).keeps s' q' hs')⟩
    · rw [hn] at hm'
      rw [hrun]
      obtain ⟨hsame, hs'⟩ | ⟨hfails, -⟩ := hm'
      · rw [run_bind_error hsame]
        exact .inl ⟨rfl, hs'⟩
      · exact .inr ⟨fails_bind hfails, .inl ⟨d, rfl⟩⟩

theorem of_refuses {d : Diagnostic} (h : Refuses d m n) (hd : d.code ≠ .nameCollision) :
    Agrees m n where
  toLax := h.lax hd
  same_or s q _ := .inr ⟨h.fails s q, h.complains hd s q⟩

/-- A problem is handled. -/
theorem attempt {f g : Except Diagnostic α → BundleM β} (hm : Agrees m n)
    (hok : ∀ a, Agrees (f (.ok a)) (g (.ok a)))
    (herror : ∀ d, Refuses d (f (.error d)) (g (.error d))) :
    Agrees (attempt m >>= f) (attempt n >>= g) where
  keeps s q hs := by
    have hs' := hm.keeps s q hs
    unfold after at hs' ⊢
    rcases hn : n.run.run s q with ⟨⟨d | a, s'⟩, q'⟩
    · rw [hn] at hs'
      rw [run_bind_ok (run_attempt hn)]
      exact ((herror d).lax (hm.code s q d (by rw [hn]))).keeps s' q' hs'
    · rw [hn] at hs'
      rw [run_bind_ok (run_attempt hn)]
      exact (hok a).keeps s' q' hs'
  code s q e he := by
    rcases hn : n.run.run s q with ⟨⟨d | a, s'⟩, q'⟩
    · rw [run_bind_ok (run_attempt hn)] at he
      exact ((herror d).lax (hm.code s q d (by rw [hn]))).code s' q' e he
    · rw [run_bind_ok (run_attempt hn)] at he
      exact (hok a).code s' q' e he
  same_or s q hs := by
    have hm' := hm.same_or s q hs
    have hstrict : ∀ d, (m.run.run s q).1.1 = .error d → Fails (Bundle.attempt m >>= f) s q := by
      intro d hd
      rcases hrun : m.run.run s q with ⟨⟨r, s'⟩, q'⟩
      rw [hrun] at hd
      obtain rfl := hd
      unfold Fails
      rw [run_bind_ok (run_attempt hrun)]
      exact (herror d).fails s' q'
    unfold Complains Fails after at hm' ⊢
    rcases hn : n.run.run s q with ⟨⟨d | a, s'⟩, q'⟩
    · rw [hn] at hm'
      rw [run_bind_ok (run_attempt hn)]
      refine .inr ⟨?_, (herror d).complains (hm.code s q d (by rw [hn])) s' q'⟩
      obtain ⟨hsame, -⟩ | ⟨⟨e, he⟩, -⟩ := hm'
      · exact hstrict d (by rw [hsame])
      · exact hstrict e he
    · rw [hn] at hm'
      rw [run_bind_ok (run_attempt hn)]
      obtain ⟨hsame, hs'⟩ | ⟨⟨e, he⟩, ⟨d, hd⟩ | hs'⟩ := hm'
      · rw [run_bind_ok (run_attempt hsame)]
        exact (hok a).same_or s' q' hs'
      · cases hd
      · exact .inr ⟨hstrict e he, .inr ((hok a).keeps s' q' hs')⟩

theorem mapM {f g : γ → BundleM β} (h : ∀ x, Agrees (f x) (g x)) (xs : List γ) :
    Agrees (xs.mapM f) (xs.mapM g) := by
  induction xs with
  | nil => exact .pure []
  | cons x xs ih =>
    rw [List.mapM_cons, List.mapM_cons]
    exact (h x).bind fun b => ih.bind fun bs => .pure (b :: bs)

theorem foldlM {f g : β → γ → BundleM β} (h : ∀ b x, Agrees (f b x) (g b x)) (xs : List γ) (b : β) :
    Agrees (xs.foldlM f b) (xs.foldlM g b) := by
  induction xs generalizing b with
  | nil => exact .pure b
  | cons x xs ih =>
    rw [List.foldlM_cons, List.foldlM_cons]
    exact (h b x).bind fun b' => ih b'

theorem program : Agrees (getThe Program) (getThe Program) :=
  of_ok (fun _ _ => Iff.rfl) fun _ _ => ⟨_, rfl⟩

theorem ofProgram (f : Program → α) : Agrees (ofProgram f) (ofProgram f) :=
  of_ok (fun _ _ => Iff.rfl) fun _ _ => ⟨_, rfl⟩

theorem state : Agrees (getThe State) (getThe State) :=
  of_ok (fun _ _ => Iff.rfl) fun _ _ => ⟨_, rfl⟩

theorem modify {f : State → State} (h : ∀ s, (f s).Blemished ↔ s.Blemished) :
    Agrees (modifyThe State f) (modifyThe State f) := of_ok (fun s _ => h s) fun _ _ => ⟨_, rfl⟩

theorem change {f : Program → State → State} (h : ∀ p s, (f p s).Blemished ↔ s.Blemished) :
    Agrees (change f) (change f) := of_ok (fun s q => h q s) fun _ _ => ⟨_, rfl⟩

/-- Both fail of the same problem. -/
theorem throw {d : Diagnostic} (h : d.code ≠ .nameCollision) :
    Agrees (MonadExceptOf.throw d : BundleM α) (MonadExceptOf.throw d) :=
  of_steady (fun _ _ => Iff.rfl) fun _ _ _ he => Except.error.inj he ▸ h

theorem answer {b : Build α} {P : α → Prop} {f g : α → BundleM β} (hb : ∀ q, P (b.value q))
    (h : ∀ a, P a → Agrees (f a) (g a)) : Agrees (liftM b >>= f) (liftM b >>= g) where
  keeps s q := (h _ (hb q)).keeps s (b.after q)
  code s q := (h _ (hb q)).code s (b.after q)
  same_or s q := (h _ (hb q)).same_or s (b.after q)

end Agrees

/-! ### The steps of a bundle -/

variable {entry : FileId}

theorem requestFor_code (b : SymbolId) (imp : Import) (q : Program) (d : Diagnostic)
    (h : (requestFor entry b imp).value q = .error d) : d.code ≠ .nameCollision := by
  obtain ⟨q', -, hrun⟩ := requestFor_run (.refl q) entry b imp
  rw [Build.value, hrun] at h
  exact (requested_minor h).1

theorem requestOfUse_agrees (decl : NodeId) (use : SymbolId × NodeId) :
    Agrees (requestOfUse entry true decl use) (requestOfUse entry false decl use) := by
  obtain ⟨u, n⟩ := use
  refine Agrees.program.bind fun p => ?_
  dsimp only
  split
  · cases importOf? p u with
    | none => exact .pure none
    | some imp =>
      refine .answer (P := fun r => ∀ d, r = .error d → d.code ≠ .nameCollision)
        (fun q d => requestFor_code u imp q d) fun r hr => ?_
      cases r with
      | error d =>
        have hkeep : Agrees
            (change (fun p state => state.keepImport (importLine p imp [u])) >>= fun _ =>
              pure none : BundleM (Option Request))
            (change (fun p state => state.keepImport (importLine p imp [u])) >>= fun _ =>
              pure none) :=
          (Agrees.change fun _ _ => State.blemished_keepImport).bind fun _ => .pure none
        exact .of_refuses (.warn hkeep.toLax) (hr d rfl)
      | ok r? =>
        cases r? with
        | none => exact .pure none
        | some r => exact .pure _
  · split
    · exact .pure _
    · exact .pure none

theorem freeReferences_agrees (decl : NodeId) :
    Agrees (freeReferences entry true decl) (freeReferences entry false decl) :=
  (Agrees.ofProgram _).bind fun uses =>
    (Agrees.mapM (fun use => requestOfUse_agrees decl use) uses).bind fun _ => .pure _

theorem enter_agrees (r : Request) : Agrees (enter entry true r) (enter entry false r) := by
  refine Agrees.state.bind fun s => Agrees.program.bind fun p => ?_
  cases s.progressOf r.target with
  | inlined sh => exact .change fun _ _ => State.blemished_bind
  | inlining => exact .throw nofun
  | unvisited =>
    dsimp only
    cases shapeOf? p r.target with
    | none => exact .throw nofun
    | some sh =>
      exact (freeReferences_agrees sh.decl).bind fun deps => .modify fun _ => State.blemished_push

theorem unwind_agrees (fuel : Nat) : Agrees (unwind entry true fuel) (unwind entry false fuel) := by
  induction fuel with
  | zero => exact .pure ()
  | succ fuel ih =>
    unfold unwind
    refine Agrees.state.bind fun s => ?_
    cases s.stack with
    | nil => exact .pure ()
    | cons top rest =>
      dsimp only
      cases top.pending with
      | nil => exact (Agrees.change fun _ _ => State.blemished_pop).bind fun _ => ih
      | cons dep deps =>
        dsimp only
        refine (Agrees.modify ?_).bind fun _ => ?_
        · exact fun _ => State.blemished_congr rfl
        refine (enter_agrees dep).attempt (fun _ => ih) fun d => ?_
        dsimp only
        rw [throw_bind, throw_bind]
        exact .fatal ih.toLax

theorem inline_agrees (r : Request) : Agrees (inline entry true r) (inline entry false r) := by
  refine (Agrees.ofProgram _).bind fun bound => ?_
  refine ((enter_agrees r).bind fun _ => unwind_agrees bound).attempt (fun _ => .pure ())
    fun d => ?_
  exact (Refuses.throw d).modify fun _ => State.blemished_congr rfl

theorem unsupported_agrees (message : String) (n : NodeId) :
    Agrees (unsupported true message n) (unsupported false message n) := by
  refine Agrees.program.bind fun p => ?_
  exact .of_refuses (.warn (Agrees.pure ()).toLax) nofun

theorem inlineBindings_agrees (imp : Import) :
    Agrees (inlineBindings entry true imp) (inlineBindings entry false imp) := by
  refine Agrees.foldlM (fun kept b => ?_) _ _
  refine Agrees.attempt ?_ (fun _ => .pure kept) fun d => .fatal (Agrees.pure _).toLax
  refine .answer (P := fun r => ∀ d, r = .error d → d.code ≠ .nameCollision)
    (fun q d => requestFor_code b imp q d) fun r hr => ?_
  cases r with
  | error d => exact .throw (hr d rfl)
  | ok r? =>
    cases r? with
    | none => exact .pure ()
    | some r => exact inline_agrees r

theorem bundleImport_agrees (imp : Import) :
    Agrees (bundleImport entry true imp) (bundleImport entry false imp) := by
  refine (Agrees.ofProgram _).bind fun text => ?_
  split
  · exact (unsupported_agrees _ _).bind fun _ => .pure text
  · refine (inlineBindings_agrees imp).bind fun kept => ?_
    split
    · exact .pure ""
    split
    · exact .pure text
    · exact .ofProgram _

theorem checkReexport_agrees (stmt : NodeId) :
    Agrees (checkReexport true stmt) (checkReexport false stmt) := by
  refine (Agrees.ofProgram _).bind fun src => ?_
  split
  · cases src.child? stmt "source" with
    | none => exact .pure ()
    | some n => exact unsupported_agrees _ _
  · exact .pure ()

theorem bundleEntry_agrees : Agrees (bundleEntry entry true) (bundleEntry entry false) := by
  refine Agrees.program.bind fun p => ?_
  refine (Agrees.mapM (fun imp => (bundleImport_agrees imp).bind fun text => .pure _) _).bind
    fun left => ?_
  refine (Agrees.mapM (fun stmt => ?_) _).bind fun body => .pure _
  split
  · exact .pure _
  · exact (checkReexport_agrees stmt).bind fun _ => .pure _

theorem start_not_blemished (p : Program) (entry : FileId) : ¬ (State.start p entry).Blemished :=
  fun ⟨_, h, _⟩ => nomatch h

/-- A strict bundle ends like the lax one, or fails where that fails or makes a report. -/
theorem run_agrees (entry : FileId) (p : Program) :
    ((run entry true).run p = (run entry false).run p ∧
      ¬ ((run entry false).value p).2.Blemished) ∨
    ((∃ d, ((run entry true).value p).1 = .error d) ∧
      ((∃ d, ((run entry false).value p).1 = .error d) ∨
        ((run entry false).value p).2.Blemished)) :=
  bundleEntry_agrees.same_or (.start p entry) p (start_not_blemished p entry)

theorem not_blemished_iff {s : State} {src : Source} {entry : FileId} {body : List String} :
    ¬ s.Blemished ↔ ∀ d ∈ (s.result src entry body).diagnostics, d.code = .nameCollision := by
  simp only [State.Blemished, State.mem_diagnostics, not_exists, not_and, not_not]

end Bundle

open Moniker.Bundle

/-- **A strict bundle succeeds exactly if the lax one does and reports nothing but name
collisions, and then they are the same.** -/
theorem bundle_strict_iff (p : Program) (path : String) (r : BundleResult) :
    ((bundle path true).value p).1 = .ok r ↔
      ((bundle path false).value p).1 = .ok r ∧ ∀ d ∈ r.diagnostics, d.code = .nameCollision := by
  rw [bundle_ok_iff, bundle_ok_iff]
  constructor
  · rintro ⟨entry, body, s, q, hentry, hrun, rfl⟩
    obtain ⟨hsame, hclean⟩ | ⟨⟨d, hd⟩, -⟩ := run_agrees entry p
    · rw [hrun] at hsame
      rw [Build.value, ← hsame] at hclean
      exact ⟨⟨entry, body, s, q, hentry, hsame.symm, rfl⟩, not_blemished_iff.mp hclean⟩
    · rw [Build.value, hrun] at hd
      cases hd
  · rintro ⟨⟨entry, body, s, q, hentry, hrun, rfl⟩, hreports⟩
    refine ⟨entry, body, s, q, hentry, ?_, rfl⟩
    have hclean := not_blemished_iff.mpr hreports
    obtain ⟨hsame, -⟩ | ⟨-, ⟨d, hd⟩ | hblemished⟩ := run_agrees entry p
    · exact hsame.trans hrun
    · rw [Build.value, hrun] at hd
      cases hd
    · rw [Build.value, hrun] at hblemished
      exact absurd hblemished hclean

end Moniker
