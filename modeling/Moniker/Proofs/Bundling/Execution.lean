/-
# A bundle takes steps

| run | comes to |
| --- | --- |
| success | steps to a state without open frames, with every import done (`run_ok`) |
| failure | steps to a state where the bundle stops (`run_error`) |

The steps that a traversal is given are enough to close all frames, because every one of
them makes the work less (`unwind_ensures`).
-/

import Moniker.Proofs.Bundling.Steps

namespace Moniker
namespace Bundle

open Program (Remembers)
open Relation (ReflTransGen)

variable {p : Program} {entry : FileId} {s s' s₁ : State} {r dep : Request} {sh : Shape}
  {d : Diagnostic} {top : Frame} {rest : List Frame} {deps : List Request}

/-- Why a request is not served. -/
inductive Declined (p : Program) (strict : Bool) (s : State) (r : Request) :
    Diagnostic → State → Prop
  | circle (h : s.progressOf r.target = .inlining) : Declined p strict s r (cycle p s.stack r) s
  | shapeless {d : Diagnostic} (h : shapeOf? p r.target = none) (hd : Minor d) :
    Declined p strict s r d s
  | minor {d : Diagnostic} (h : strict = true) (hd : Minor d) (s' : State) :
    Declined p strict s r d s'

/-- A request is served after some remarks, or declined. -/
def Entered (p : Program) (entry : FileId) (strict : Bool) (s : State) (r : Request) :
    Except Diagnostic Unit → State → Prop
  | .ok _, s' => ∃ s₁, Remarks s s₁ ∧ Serves p entry s₁ r s'
  | .error d, s' => Declined p strict s r d s'

theorem enter_ensures (strict : Bool) (s : State) (r : Request) :
    Ensures p (enter entry strict r) s (Entered p entry strict s r) := by
  unfold enter
  refine .state (.program fun q hq => ?_)
  cases hprogress : s.progressOf r.target with
  | inlined sh =>
    refine .changed fun q hq => ?_
    rw [hq.bind_eq]
    exact ⟨s, .refl, .known hprogress⟩
  | inlining =>
    refine .throw ?_
    rw [hq.cycle_eq]
    exact .circle hprogress
  | unvisited =>
    dsimp only
    rw [hq.shapeOf?_eq]
    cases hsh : shapeOf? p r.target with
    | none => exact .throw (.shapeless hsh ⟨nofun, nofun⟩)
    | some sh =>
      refine (freeReferences_ensures strict sh.decl).bind ?_ ?_
      · rintro deps s₁ ⟨hs₁, rfl, hreported⟩
        refine .modified ⟨s₁, hs₁, .opened ?_ hsh hreported⟩
        rw [State.progressOf, hs₁.travel.2]
        exact hprogress
      · rintro d s₁ ⟨hstrict, hd⟩
        exact .minor hstrict hd s₁

theorem not_isFatal (hd : Minor d) : ¬ isFatal false d = true := by
  intro h
  exact hd.2 (beq_iff_eq.mp h)

/-- Whatever a bundle stops of is fatal. -/
theorem Stops.isFatal {strict : Bool} (h : Stops p entry strict s d) : isFatal strict d = true := by
  cases h with
  | circle => exact Bool.or_true strict
  | minor hstrict =>
    rw [hstrict]
    rfl

/-- A request that is declined while it is awaited stops the bundle, unless its target cannot
be copied and the bundle is lax. -/
theorem Declined.stops_or {strict : Bool} (h : Declined p strict s r d s')
    (hr : Awaited p entry s₁ r) (hprogress : s.progressOf r.target = s₁.progressOf r.target)
    (hcycle : cycle p s.stack r = cycle p s₁.stack r) : Stops p entry strict s₁ d ∨
      (strict = false ∧ s' = s ∧ shapeOf? p r.target = none ∧ Minor d) := by
  cases h with
  | circle hopen =>
    rw [hcycle]
    exact .inl (.circle (hprogress.symm.trans hopen) hr)
  | minor hstrict hd => exact .inl (.minor hstrict hd)
  | shapeless hsh hd =>
    cases strict with
    | true => exact .inl (.minor rfl hd)
    | false => exact .inr ⟨rfl, rfl, hsh, hd⟩

/-- The report of a circle does not depend on what is pending. -/
theorem cycle_pending (p : Program) (top : Frame) (rest : List Frame) (deps : List Request)
    (r : Request) :
    cycle p ({ top with pending := deps } :: rest) r = cycle p (top :: rest) r := by
  unfold cycle
  by_cases h : top.request.target = r.target
  · simp [h]
  · simp [h]

/-- A way to a state where the bundle stops. -/
def Halts (p : Program) (entry : FileId) (strict : Bool) (start : State) (d : Diagnostic) : Prop :=
  ∃ s, Steps p entry start s ∧ Stops p entry strict s d

theorem Halts.after {strict : Bool} (hs : Steps p entry s s₁) (h : Halts p entry strict s₁ d) :
    Halts p entry strict s d := by
  obtain ⟨s₂, hs₂, hstops⟩ := h
  exact ⟨s₂, hs.trans hs₂, hstops⟩

theorem Halts.isFatal {strict : Bool} (h : Halts p entry strict s d) : isFatal strict d = true := by
  obtain ⟨_, -, hstops⟩ := h
  exact hstops.isFatal

/-- Steps that lead to a state without open frames, or to one where the bundle stops. -/
def Unwound (p : Program) (entry : FileId) (strict : Bool) (s : State) :
    Except Diagnostic Unit → State → Prop :=
  Ends (fun _ s' => Steps p entry s s' ∧ s'.stack = []) fun d _ => Halts p entry strict s d

theorem Unwound.after (h : Steps p entry s s₁) {strict : Bool} {r : Except Diagnostic Unit}
    (hr : Unwound p entry strict s₁ r s') : Unwound p entry strict s r s' := by
  cases r with
  | ok _ => exact ⟨h.trans hr.1, hr.2⟩
  | error d => exact Halts.after h hr

theorem unwind_ensures (strict : Bool) (fuel : Nat) (s : State) (hfuel : s.work p ≤ fuel) :
    Ensures p (unwind entry strict fuel) s (Unwound p entry strict s) := by
  induction fuel generalizing s with
  | zero =>
    refine .pure ⟨.refl, ?_⟩
    cases hs : s.stack with
    | nil => rfl
    | cons top rest =>
      unfold State.work at hfuel
      rw [hs] at hfuel
      simp only [List.map_cons, List.sum_cons] at hfuel
      omega
  | succ fuel ih =>
    -- A step makes the work less, and the rest follows by induction.
    have hstep : ∀ {s₁ s'}, Remarks s s₁ → Step p entry s₁ s' → s'.work p < s₁.work p →
        Ensures p (unwind entry strict fuel) s' (Unwound p entry strict s) := by
      intro s₁ s' hs₁ hstep hwork
      rw [hs₁.work_eq] at hwork
      exact (ih s' (by omega)).mono fun _ _ h => h.after (hs₁.steps.tail hstep)
    unfold unwind
    refine .state ?_
    cases hs : s.stack with
    | nil => exact .pure ⟨.refl, hs⟩
    | cons top rest =>
      dsimp only
      cases hp : top.pending with
      | nil =>
        dsimp only
        refine .change fun q hq => ?_
        rw [hq.pop_eq]
        exact hstep .refl (.close hs hp) (work_lt_of_close hs hp)
      | cons dep deps =>
        dsimp only
        refine .modify ((enter_ensures strict _ dep).attempt fun outcome s' h => ?_)
        cases outcome with
        | ok _ =>
          obtain ⟨s₂, hs₂, hserves⟩ := h
          obtain ⟨s₁, hs₁, rfl⟩ := hs₂.restack
          have hstack : s₁.stack = top :: rest := hs₁.travel.1.trans hs
          exact hstep hs₁ (.need hstack hp hserves) (work_lt_of_need hstack hp hserves)
        | error d =>
          have hnext : Awaited p entry s dep :=
            .inr ⟨top, rest, hs, hp ▸ List.mem_cons_self⟩
          have hcycle : cycle p ({ top with pending := deps } :: rest) dep =
              cycle p s.stack dep := by rw [cycle_pending, hs]
          dsimp only
          rw [throw_bind]
          obtain hstops | ⟨rfl, rfl, hsh, hd⟩ := Declined.stops_or h hnext rfl hcycle
          · rw [if_pos hstops.isFatal]
            exact .throw ⟨s, .refl, hstops⟩
          · rw [if_neg (not_isFatal hd)]
            have hserves := @Serves.refused p entry
              { s with stack := { top with pending := deps } :: rest } dep d hsh hd
            exact .warn (hstep .refl (.need hs hp hserves) (work_lt_of_need hs hp hserves))

/-- A request of the entry has been served since the start. -/
def Fulfilled (p : Program) (entry : FileId) (start : State) (r : Request) (s : State) : Prop :=
  ∃ s₁ s₂, Steps p entry start s₁ ∧ s₁.stack = [] ∧ Serves p entry s₁ r s₂ ∧ Steps p entry s₂ s

theorem Fulfilled.steps (h : Fulfilled p entry s r s₁) (hs : Steps p entry s₁ s') :
    Fulfilled p entry s r s' := by
  obtain ⟨t₁, t₂, h₁, hstack, hserves, h₂⟩ := h
  exact ⟨t₁, t₂, h₁, hstack, hserves, h₂.trans hs⟩

theorem work_le_stepBound (hs : s.stack = []) : s.work p ≤ stepBound p := by
  have hcard : (s.unvisited p).card ≤ p.symbols.size :=
    (Finset.card_filter_le _ _).trans (Finset.card_range _).le
  have hmul := Nat.mul_le_mul_right (p.referenced.size + 2) (hcard.trans (Nat.le_succ _))
  unfold State.work stepBound
  rw [hs]
  simpa using hmul

/-- What inlining a target comes to: it is done, nothing happens, or the bundle ends. -/
def Inlined (p : Program) (entry : FileId) (strict : Bool) (s : State) (r : Request) :
    Except Diagnostic Unit → State → Prop
  | .ok _, s' => Steps p entry s s' ∧ s'.stack = [] ∧ Fulfilled p entry s r s'
  | .error d, s' => (strict = false ∧ s' = s ∧ shapeOf? p r.target = none ∧ Minor d) ∨
      Halts p entry strict s d

theorem inline_ensures (strict : Bool) (hs : s.stack = []) (hr : Asked p entry r) :
    Ensures p (inline entry strict r) s (Inlined p entry strict s r) := by
  unfold inline
  refine .ofProgram fun q hq => ?_
  rw [hq.stepBound_eq]
  have hrun : Ensures p (enter entry strict r >>= fun _ => unwind entry strict (stepBound p)) s
      (Inlined p entry strict s r) := by
    refine (enter_ensures strict s r).bind (fun _ s' h => ?_) fun d s' h => ?_
    · obtain ⟨s₁, hs₁, hserves⟩ := h
      have hstack : s₁.stack = [] := hs₁.travel.1.trans hs
      have hwork : s'.work p ≤ stepBound p := hserves.work_le.trans (work_le_stepBound hstack)
      have hsteps : Steps p entry s s' := hs₁.steps.tail (.ask hstack hr hserves)
      refine (unwind_ensures strict _ s' hwork).mono fun outcome s'' h => ?_
      cases outcome with
      | ok _ => exact ⟨hsteps.trans h.1, h.2, s₁, s', hs₁.steps, hstack, hserves, h.1⟩
      | error d => exact .inr (Halts.after hsteps h)
    · obtain hstops | hrefused := Declined.stops_or h (.inl ⟨hs, hr⟩) rfl rfl
      · exact .inr ⟨s, .refl, hstops⟩
      · exact .inl hrefused
  refine hrun.attempt fun outcome s' h => ?_
  cases outcome with
  | ok _ => exact .pure h
  | error d =>
    refine .modify (.throw ?_)
    obtain ⟨hstrict, rfl, h⟩ | h := h
    · refine .inl ⟨hstrict, ?_, h⟩
      rw [← hs]
    · exact .inr h

/-! ### The entry -/

theorem Serves.blemished (h : Serves p entry s r s') (hs : s.Blemished) : s'.Blemished := by
  cases h with
  | known => exact State.blemished_bind.mpr hs
  | opened => exact State.blemished_push.mpr hs
  | refused => exact State.blemished_warn.mpr (.inl hs)

theorem Step.blemished (h : Step p entry s s') (hs : s.Blemished) : s'.Blemished := by
  cases h with
  | remark h => exact h.blemished hs
  | ask _ _ h => exact h.blemished hs
  | need _ _ h => exact h.blemished hs
  | close => exact State.blemished_pop.mpr hs

theorem steps_blemished (h : Steps p entry s s') (hs : s.Blemished) : s'.Blemished := by
  induction h with
  | refl => exact hs
  | tail _ hstep ih => exact hstep.blemished ih

/-- What has become of a binding: its request is served, or its refusal reported. -/
structure Handled (p : Program) (entry : FileId) (start : State) (imp : Import) (b : SymbolId)
    (s : State) : Prop where
  refused : ∀ d, requested p entry b imp = .error d → s.Blemished
  served : ∀ r, requested p entry b imp = .ok (some r) → Fulfilled p entry start r s

/-- What has become of an import: its bindings are handled, and an import that cannot be
copied at all is reported. -/
structure Done (p : Program) (entry : FileId) (start : State) (imp : Import) (s : State) :
    Prop where
  whole : (imp.isSideEffect || imp.typeOnly) = true → s.Blemished
  bindings : ∀ b ∈ imp.bindings, Handled p entry start imp b s

variable {start : State} {imp : Import} {b : SymbolId}

theorem Handled.steps (h : Handled p entry start imp b s) (hs : Steps p entry s s') :
    Handled p entry start imp b s' :=
  ⟨fun d hd => steps_blemished hs (h.refused d hd), fun r hr => (h.served r hr).steps hs⟩

theorem Done.steps (h : Done p entry start imp s) (hs : Steps p entry s s') :
    Done p entry start imp s' :=
  ⟨fun hwhole => steps_blemished hs (h.whole hwhole), fun b hb => (h.bindings b hb).steps hs⟩

theorem Handled.of_requested {r? : Option Request} (h : requested p entry b imp = .ok r?)
    (hr : ∀ r, r? = some r → Fulfilled p entry start r s) : Handled p entry start imp b s where
  refused _ hd := nomatch h.symm.trans hd
  served r hr' := hr r (Except.ok.inj (h.symm.trans hr'))

/-- What a binding asks for is inlined, or it is not and has been handled once that is
reported, or the bundle ends. -/
theorem inlineBinding_ensures (strict : Bool) (himp : imp ∈ (p.moduleOf entry).imports)
    (hb : b ∈ imp.bindings) (hstart : Steps p entry start s) (hs : s.stack = []) :
    Ensures p (do
        match ← (requestFor entry b imp : Build _) with
        | .error d => throw d
        | .ok none => pure ()
        | .ok (some r) => inline entry strict r) s
      (Ends (fun _ s' => Steps p entry s s' ∧ s'.stack = [] ∧ Handled p entry start imp b s')
        fun d s' => (s' = s ∧ Minor d ∧ Handled p entry start imp b (s.warn d)) ∨
          Halts p entry strict start d) := by
  refine .answer (fun q hq => requestFor_run hq entry b imp) ?_
  cases hreq : requested p entry b imp with
  | error d =>
    have hd := requested_minor hreq
    refine .throw (.inl ⟨rfl, hd, fun _ _ => State.blemished_warn.mpr (.inr hd.1), ?_⟩)
    exact fun r hr => nomatch hreq.symm.trans hr
  | ok r? =>
    cases r? with
    | none => exact .pure ⟨.refl, hs, .of_requested hreq nofun⟩
    | some r =>
      refine (inline_ensures strict hs ⟨imp, himp, b, hb, hreq⟩).mono fun outcome s' h => ?_
      cases outcome with
      | ok _ =>
        obtain ⟨hsteps, hstack, t₁, t₂, ht₁, h⟩ := h
        refine ⟨hsteps, hstack, .of_requested hreq ?_⟩
        rintro r ⟨⟩
        exact ⟨t₁, t₂, hstart.trans ht₁, h⟩
      | error d =>
        obtain ⟨-, rfl, hsh, hd⟩ | hhalts := h
        · refine .inl ⟨rfl, hd, .of_requested hreq ?_⟩
          rintro r ⟨⟩
          exact ⟨s', _, hstart, hs, .refused hsh hd, .refl⟩
        · exact .inr (Halts.after hstart hhalts)

theorem inlineBindings_ensures (strict : Bool) (himp : imp ∈ (p.moduleOf entry).imports)
    (hstart : Steps p entry start s) (hs : s.stack = []) :
    Ensures p (inlineBindings entry strict imp) s
      (Ends (fun _ s' => Steps p entry s s' ∧ s'.stack = [] ∧
          ∀ b ∈ imp.bindings, Handled p entry start imp b s')
        fun d _ => Halts p entry strict start d) := by
  refine .foldlM (I := fun done s' => Steps p entry s s' ∧ s'.stack = [] ∧
    ∀ b ∈ done, Handled p entry start imp b s') ⟨.refl, hs, nofun⟩ ?_
  rintro done kept b s₁ ⟨hs₁, hstack, hdone⟩ hb
  replace hstart := hstart.trans hs₁
  -- A binding more is handled.
  have hmore : ∀ {s'}, Steps p entry s₁ s' → s'.stack = [] → Handled p entry start imp b s' →
      Steps p entry s s' ∧ s'.stack = [] ∧ ∀ b' ∈ done ++ [b], Handled p entry start imp b' s' := by
    intro s' hsteps hstack hhandled
    refine ⟨hs₁.trans hsteps, hstack, fun b' hb' => ?_⟩
    rcases List.mem_append.mp hb' with hb' | hb'
    · exact (hdone b' hb').steps hsteps
    · rwa [List.mem_singleton.mp hb']
  refine (inlineBinding_ensures strict himp hb hstart hstack).attempt fun outcome s' h => ?_
  cases outcome with
  | ok _ =>
    obtain ⟨hsteps, hstack, hhandled⟩ := h
    exact .pure (hmore hsteps hstack hhandled)
  | error d =>
    dsimp only
    obtain ⟨rfl, hd, hhandled⟩ | hhalts := h
    · cases strict with
      | true => exact .throw ⟨s', hstart, .minor rfl hd⟩
      | false =>
        rw [if_neg (not_isFatal hd)]
        exact .warn (.pure (hmore (.single (.remark (.warn hd))) hstack hhandled))
    · rw [if_pos hhalts.isFatal]
      exact .throw hhalts

theorem unsupported_ensures (strict : Bool) (message : String) (n : NodeId) :
    Ensures p (unsupported strict message n) s
      (Ends (fun _ s' => Remark s s' ∧ s'.Blemished) fun d _ => strict = true ∧ Minor d) := by
  unfold unsupported
  refine .program fun q _ => ?_
  have hd : Minor (reportAt q .unsupportedShape message n) := ⟨nofun, nofun⟩
  cases strict with
  | true => exact .throw ⟨rfl, hd⟩
  | false => exact .warned ⟨.warn hd, State.blemished_warn.mpr (.inr hd.1)⟩

theorem bundleImport_ensures (strict : Bool) (himp : imp ∈ (p.moduleOf entry).imports)
    (hstart : Steps p entry start s) (hs : s.stack = []) :
    Ensures p (bundleImport entry strict imp) s
      (Ends (fun _ s' => Steps p entry s s' ∧ s'.stack = [] ∧ Done p entry start imp s')
        fun d _ => Halts p entry strict start d) := by
  unfold bundleImport
  refine .ofProgram fun q _ => ?_
  split
  · next hwhole =>
    refine (unsupported_ensures strict _ _).bind (fun _ s' h => .pure ?_) fun d s' h => ?_
    · obtain ⟨hremark, hblemished⟩ := h
      refine ⟨.single (.remark hremark), hremark.travel.1.trans hs, fun _ => hblemished,
        fun b hb => ⟨fun _ _ => hblemished, fun r hr => ?_⟩⟩
      -- Nothing is asked for by such an import.
      rcases Bool.or_eq_true_iff.mp hwhole with hempty | htype
      · rw [List.isEmpty_iff.mp hempty] at hb
        cases hb
      · cases (requested_of_typeOnly htype).symm.trans hr
    · exact ⟨s, hstart, .minor h.1 h.2⟩
  · next hwhole =>
    refine (inlineBindings_ensures strict himp hstart hs).bind (fun kept s' h => ?_) fun _ _ h => h
    have hdone : Steps p entry s s' ∧ s'.stack = [] ∧ Done p entry start imp s' :=
      ⟨h.1, h.2.1, fun h => absurd h hwhole, h.2.2⟩
    split
    · exact .pure hdone
    split
    · exact .pure hdone
    · exact .reads fun _ _ => hdone

theorem checkReexport_ensures (strict : Bool) (stmt : NodeId) :
    Ensures p (checkReexport strict stmt) s
      (Ends (fun _ s' => Remarks s s') fun d _ => strict = true ∧ Minor d) := by
  unfold checkReexport
  refine .ofProgram fun q _ => ?_
  split
  · cases q.source.child? stmt "source" with
    | none => exact .pure .refl
    | some n =>
      refine (unsupported_ensures strict _ _).mono fun outcome s' h => ?_
      cases outcome with
      | ok _ => exact .single h.1
      | error d => exact h
  · exact .pure .refl

/-- **What a bundle comes to**: steps to a state without open frames, where every import
is done, or steps to a state where it stops. -/
theorem bundleEntry_ensures (strict : Bool) (hs : s.stack = []) :
    Ensures p (bundleEntry entry strict) s
      (Ends (fun _ s' => Steps p entry s s' ∧ s'.stack = [] ∧
          ∀ imp ∈ (p.moduleOf entry).imports, Done p entry s imp s')
        fun d _ => Halts p entry strict s d) := by
  unfold bundleEntry
  refine .program fun q hq => ?_
  rw [hq.moduleOf_eq]
  refine (Ensures.mapM (I := fun done _ s' => Steps p entry s s' ∧ s'.stack = [] ∧
    ∀ imp ∈ done, Done p entry s imp s') (E := fun d _ => Halts p entry strict s d)
    ⟨.refl, hs, nofun⟩ ?_).bind (fun left s₁ h₁ => ?_) fun _ _ h => h
  · rintro done texts imp s₁ ⟨hsteps, hstack, hdone⟩ himp
    refine (bundleImport_ensures strict himp hsteps hstack).bind (fun text s₂ h => .pure ?_)
      fun _ _ h => h
    obtain ⟨hsteps₂, hstack₂, himp₂⟩ := h
    refine ⟨hsteps.trans hsteps₂, hstack₂, fun imp' h => ?_⟩
    rcases List.mem_append.mp h with h | h
    · exact (hdone imp' h).steps hsteps₂
    · rwa [List.mem_singleton.mp h]
  · refine (Ensures.mapM (I := fun _ _ s' => Steps p entry s s' ∧ s'.stack = [] ∧
      ∀ imp ∈ (p.moduleOf entry).imports, Done p entry s imp s')
      (E := fun d _ => Halts p entry strict s d) h₁ ?_).bind (fun _ _ h => .pure h) fun _ _ h => h
    rintro _ _ stmt s₂ h₂ -
    split
    · exact .pure h₂
    · refine (checkReexport_ensures strict stmt).bind (fun _ s₃ h₃ => .pure ?_) fun d s₃ h₃ => ?_
      · exact ⟨h₂.1.trans h₃.steps, h₃.travel.1.trans h₂.2.1,
          fun imp himp => (h₂.2.2 imp himp).steps h₃.steps⟩
      · exact ⟨s₂, h₂.1, .minor h₃.1 h₃.2⟩

/-- **A bundle that succeeds has taken steps to a state without open frames, and is done
with every import of the entry.** -/
theorem run_ok {strict : Bool} {body : List String} {q : Program}
    (h : (Bundle.run entry strict).run p = ((.ok body, s), q)) :
    p.Remembers q ∧ Steps p entry (.start p entry) s ∧ s.stack = [] ∧
      ∀ imp ∈ (p.moduleOf entry).imports, Done p entry (.start p entry) imp s := by
  obtain ⟨outcome, s', q', hrun, hq', hends⟩ :=
    bundleEntry_ensures (s := .start p entry) strict rfl p (.refl p)
  cases hrun.symm.trans h
  exact ⟨hq', hends⟩

/-- **A bundle that fails has taken steps to a state where it stops.** -/
theorem run_error {strict : Bool} {q : Program}
    (h : (Bundle.run entry strict).run p = ((.error d, s), q)) :
    Halts p entry strict (.start p entry) d := by
  obtain ⟨outcome, s', q', hrun, hq', hends⟩ :=
    bundleEntry_ensures (s := .start p entry) strict rfl p (.refl p)
  cases hrun.symm.trans h
  exact hends

/-- The bundle of a path ends in a state, and comes to a result. -/
structure Yields (p : Program) (path : String) (strict : Bool) (entry : FileId) (s : State)
    (r : BundleResult) : Prop where
  file : p.fileAt? path = some entry
  result : ∃ body, (Bundle.run entry strict).value p = (.ok body, s) ∧
    r = s.result p.source entry body

theorem yields_of_bundle {path : String} {strict : Bool} {r : BundleResult}
    (h : ((bundle path strict).value p).1 = .ok r) : ∃ entry s, Yields p path strict entry s r := by
  obtain ⟨entry, body, s, q, hentry, hrun, rfl⟩ := bundle_ok_iff.mp h
  refine ⟨entry, s, hentry, body, congrArg Prod.fst hrun, ?_⟩
  rw [(run_ok hrun).1.source_eq]

/-- A result comes from steps to a state without open frames. -/
theorem Yields.run_ok {path : String} {strict : Bool} {r : BundleResult}
    (h : Yields p path strict entry s r) : ∃ body q,
      (Bundle.run entry strict).run p = ((.ok body, s), q) := by
  obtain ⟨body, hrun, -⟩ := h.result
  exact ⟨body, _, Prod.ext hrun rfl⟩

end Bundle
end Moniker
