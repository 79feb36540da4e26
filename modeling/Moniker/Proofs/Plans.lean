/-
# What a plan renames

A plan gives new names to some symbols (`ManglePlan.Renames`); every symbol has a
final name, the new one or the one it keeps.  All names of a plan are safe, and each
is that of a candidate (`exists_settled_planMangle`).  So a renamed symbol is declared in
one of the files and no plain reason keeps its name (`exists_entry_of_renames`).  A symbol of a
scope has the domain of the scope (`domain_of_mem_candidates`), a member that of its
owner (`domain_of_renames`), and a member that overrides another is not renamed
(`exists_overrides_eq_false`).
-/

import Moniker.Proofs.Allocation
import Moniker.Proofs.Surface.Run

namespace Moniker

open Program (Later)

namespace Program

variable {p : Program} {c : ScopeId}

/-- A candidate that a scope lists has the domain of the scope. -/
theorem domain_of_mem_candidates {files : List FileId} {opts : SurfaceOptions} {e : Entry}
    (hw : WellScoped p) (he : e ∈ ((analyze files opts).value p).candidates)
    (hs : e.symbol ∈ (p.scope c).symbols) : e.domain = .lexical (some c) := by
  obtain ⟨hmem, hpublic⟩ := Analysis.visibility_of_mem_candidates he
  obtain ⟨f, _, q, hq, hrec, surface, q', hqq', hreason⟩ := entry_of_mem hmem
  obtain ⟨hlt, hscope⟩ := hw.listed hs
  have hsome : (p.symbol e.symbol).scope ≠ none := by
    rw [hscope]
    exact Option.some_ne_none c
  have howner : (p.symbol e.symbol).owner = none := by
    by_contra hne
    obtain ⟨hpar, hprop⟩ := hw.owned hs hne
    have hkept := Extends.symbol_kept (hq.trans hqq') hlt
    have hproperty : (q'.symbol e.symbol).has .parameter = true ∧
        (q'.symbol e.symbol).has .property = true := by
      rw [Symbol.has, Symbol.has, hkept.traits hsome]
      exact ⟨hpar, hprop⟩
    obtain ⟨reason, hplain, hvis⟩ := plainReason?_public opts.reserved e.toScopedSymbol
      (.inr (.inr (.inr (.inr (.inl hproperty)))))
    exact hpublic (by rw [Entry.visibility, hreason, Program.classify_of_plainReason hplain, hvis])
  have hkept := Extends.symbol_kept hq hlt
  rw [(mem_scopedSymbols hrec).2.2.2 (hkept.owner.trans howner), hkept.scope, hscope]

end Program

namespace ManglePlan

variable {p : Program} {plan : ManglePlan} {s s' : SymbolId} {files : List FileId}
  {opts : MangleOptions}

/-- The symbol gets a new name. -/
def Renames (plan : ManglePlan) (s : SymbolId) : Prop := ∃ r ∈ plan.renamings, r.symbol = s

/-- The name a symbol has once the plan is carried out. -/
def finalName (plan : ManglePlan) (p : Program) (s : SymbolId) : String :=
  ((plan.renamings.find? fun r => r.symbol == s).map Renaming.target).getD (p.symbol s).name

theorem finalName_of_not_renames (h : ¬ plan.Renames s) :
    plan.finalName p s = (p.symbol s).name := by
  have hnone : (plan.renamings.find? fun r => r.symbol == s) = none :=
    List.find?_eq_none.mpr fun r hr heq => h ⟨r, hr, by simpa using heq⟩
  rw [finalName, hnone]
  rfl

/-- A renamed symbol has a renaming that gives its final name. -/
theorem exists_target_eq_finalName (h : plan.Renames s) :
    ∃ r ∈ plan.renamings, r.symbol = s ∧ r.target = plan.finalName p s := by
  obtain ⟨r, hr, hs⟩ := h
  cases hfind : plan.renamings.find? fun r => r.symbol == s with
  | none => exact absurd (by simpa using hs) (List.find?_eq_none.mp hfind r hr)
  | some r' =>
    refine ⟨r', List.mem_of_find?_eq_some hfind, by simpa using List.find?_some hfind, ?_⟩
    rw [finalName, hfind]
    rfl

/-- **All names of a plan are safe,** with the reserved names avoided, and each is that of
a candidate. -/
theorem exists_settled_planMangle (opts : MangleOptions) (hw : WellScoped p)
    (hs : p.source.LaidOut) (hsel : ∀ f ∈ files, f ∈ p.source.fileIds) :
    let plan := (planMangle files opts).value p
    (∃ a, Allocator.Settled p ((planMangle files opts).after p) a plan.renamings ∧
        a.reserved = opts.reserved) ∧
      ∀ r ∈ plan.renamings,
        ∃ e ∈ ((analyze files opts.toSurfaceOptions).value p).candidates, Allocator.Renames r e := by
  have hanalysis := analyze_inquires files opts.toSurfaceOptions p
  have hfile : ∀ e ∈ ((analyze files opts.toSurfaceOptions).value p).candidates,
      p.source.fileOf e.decl ∈ p.source.fileIds := by
    intro e he
    obtain ⟨f, hf, q, hq, hrec, _⟩ := entry_of_mem (Analysis.visibility_of_mem_candidates he).1
    have hnode := (Program.mem_scopedSymbols hrec).1
    rw [Program.Extends.source_eq hq] at hnode
    rw [hs.fileOf_of_mem_nodesOf (hsel f hf) hnode]
    exact hsel f hf
  have hgeneral : ∀ e ∈ ((analyze files opts.toSurfaceOptions).value p).general,
      e ∈ ((analyze files opts.toSurfaceOptions).value p).candidates :=
    fun e he => (List.mem_filter.mp he).1
  have hhard : ∀ e ∈ ((analyze files opts.toSurfaceOptions).value p).hardPrivates,
      e ∈ ((analyze files opts.toSurfaceOptions).value p).candidates :=
    fun e he => (List.mem_filter.mp he).1
  have hstart (final : Program) : Allocator.Settled p final { reserved := opts.reserved } [] :=
    ⟨.start opts.reserved, fun s h => by simp at h⟩
  unfold planMangle ManglePlan.ofAnalysis
  simp only [Build.value_bind, Build.after_bind]
  split
  · simp only [Build.value_bind, Build.value_pure, Build.after_bind, Build.after_pure]
    have hmid := hanalysis.trans (Allocator.allocate_inquires { reserved := opts.reserved }
      ((analyze files opts.toSurfaceOptions).value p).general _)
    obtain ⟨hfirst, hreserved, hrenames⟩ := (hstart _).allocate hw
      ⟨hanalysis, Allocator.allocate_inquires _ _ _⟩ fun e he => hfile e (hgeneral e he)
    obtain ⟨hsecond, hreserved', hrenames'⟩ :=
      hfirst.allocate hw ⟨hmid, .refl⟩ fun e he => hfile e (hhard e he)
    refine ⟨⟨_, hsecond, hreserved'.trans hreserved⟩, fun r hr => ?_⟩
    rcases List.mem_append.mp hr with hr | hr
    · obtain ⟨e, he, hre⟩ := hrenames r hr
      exact ⟨e, hgeneral e he, hre⟩
    · obtain ⟨e, he, hre⟩ := hrenames' r hr
      exact ⟨e, hhard e he, hre⟩
  · simp only [Build.value_pure, Build.after_pure]
    obtain ⟨hfirst, hreserved, hrenames⟩ :=
      (hstart _).allocate hw ⟨hanalysis, .refl⟩ fun e he => hfile e (hgeneral e he)
    refine ⟨⟨_, hfirst, hreserved⟩, fun r hr => ?_⟩
    obtain ⟨e, he, hre⟩ := hrenames r hr
    exact ⟨e, hgeneral e he, hre⟩

theorem settled_planMangle (opts : MangleOptions) (hw : WellScoped p) (hs : p.source.LaidOut)
    (hsel : ∀ f ∈ files, f ∈ p.source.fileIds) :
    let plan := (planMangle files opts).value p
    (∃ a, Allocator.Settled p ((planMangle files opts).after p) a plan.renamings) ∧
      ∀ r ∈ plan.renamings,
        ∃ e ∈ ((analyze files opts.toSurfaceOptions).value p).candidates, Allocator.Renames r e := by
  obtain ⟨⟨a, hsettled, _⟩, hrenames⟩ := exists_settled_planMangle opts hw hs hsel
  exact ⟨⟨a, hsettled⟩, hrenames⟩

theorem analysis_planMangle (opts : MangleOptions) :
    ((planMangle files opts).value p).analysis =
      (analyze files opts.toSurfaceOptions).value p := by
  unfold planMangle ManglePlan.ofAnalysis
  simp only [Build.value_bind]
  split <;> rfl

/-- Where nothing is public from the start, a plan is made without a surface. -/
theorem planMangle_of_quiet
    (h : ∀ phase ∈ Program.checker.phases files opts.toSurfaceOptions, phase p = []) :
    (planMangle files opts).run p =
      (do ManglePlan.ofAnalysis opts (← Program.classifier.analyzeWith {} opts.reserved files) :
        Build ManglePlan).run p := by
  have hsurface := Checker.collectSurface_of_quiet h
  unfold planMangle analyze
  change (match (match collectSurface files opts.toSurfaceOptions p with
    | (r, q) => Program.classifier.analyzeWith r opts.reserved files q) with
    | (a, q) => ManglePlan.ofAnalysis opts a q) = _
  rw [hsurface]
  rfl

/-- **What a plan renames is declared in one of the files,** where the renaming says, and no plain
reason makes the declaration public. -/
theorem exists_entry_of_mem_renamings {r : Renaming} (hw : WellScoped p) (hs : p.source.LaidOut)
    (hsel : ∀ f ∈ files, f ∈ p.source.fileIds)
    (hr : r ∈ ((planMangle files opts).value p).renamings) :
    ∃ rec : ScopedSymbol, rec.symbol = r.symbol ∧ rec.decl = r.decl ∧ ∃ f ∈ files, ∃ q, Later p q ∧
      rec ∈ Program.classifier.scopedSymbols q f ∧ ∃ q', Later q q' ∧
        ∀ reason, Program.classifier.plainReason? q' opts.reserved rec = some reason →
          reason.visibility ≠ .public_ := by
  obtain ⟨e, he, hsymbol, hdecl, _⟩ := (settled_planMangle opts hw hs hsel).2 r hr
  obtain ⟨hmem, hpublic⟩ := Analysis.visibility_of_mem_candidates he
  obtain ⟨f, hf, q, hq, hrec, surface, q', hq', hreason⟩ := entry_of_mem hmem
  refine ⟨e.toScopedSymbol, hsymbol.symm, hdecl.symm, f, hf, q, hq, hrec, q', hq',
    fun reason h hvis => ?_⟩
  exact hpublic (by rw [Entry.visibility, hreason, Program.classify_of_plainReason h, hvis])

theorem exists_entry_of_renames (hw : WellScoped p) (hs : p.source.LaidOut)
    (hsel : ∀ f ∈ files, f ∈ p.source.fileIds)
    (h : ((planMangle files opts).value p).Renames s) :
    ∃ rec : ScopedSymbol, rec.symbol = s ∧ ∃ f ∈ files, ∃ q, Later p q ∧
      rec ∈ Program.classifier.scopedSymbols q f ∧ ∃ q', Later q q' ∧
        ∀ reason, Program.classifier.plainReason? q' opts.reserved rec = some reason →
          reason.visibility ≠ .public_ := by
  obtain ⟨r, hr, rfl⟩ := h
  obtain ⟨rec, hsymbol, -, hrec⟩ := exists_entry_of_mem_renamings hw hs hsel hr
  exact ⟨rec, hsymbol, hrec⟩

/-- **A renamed member has the domain of its owner.** -/
theorem domain_of_renames {r : Renaming} {owner : SymbolId} (hw : WellScoped p)
    (hs : p.source.LaidOut) (hsel : ∀ f ∈ files, f ∈ p.source.fileIds)
    (hr : r ∈ ((planMangle files opts).value p).renamings)
    (howner : (p.symbol r.symbol).owner = some owner) :
    r.domain = if (p.symbol r.symbol).has .hardPrivate then .hardPrivate owner
      else .members owner := by
  obtain ⟨e, he, hsymbol, _, hdomain⟩ := (settled_planMangle opts hw hs hsel).2 r hr
  obtain ⟨f, _, q, hq, hrec, _⟩ := entry_of_mem (Analysis.visibility_of_mem_candidates he).1
  have hkept := Program.Extends.symbol_kept hq (Program.idx_lt_of_owner howner)
  rw [hsymbol] at hkept howner ⊢
  rw [hdomain, Program.domain_of_mem_scopedSymbols hrec (hkept.owner.trans howner), hkept.hard]

/-- The rest of a plan only puts questions once the declarations have been decided about. -/
theorem analyze_runAt_planMangle (files : List FileId) (opts : MangleOptions) (p : Program) :
    (analyze files opts.toSurfaceOptions).RunAt p ((planMangle files opts).after p) p := by
  refine ⟨.refl, ?_⟩
  unfold planMangle ManglePlan.ofAnalysis
  rw [Build.after_bind]
  refine Build.Inquires.bind (Allocator.allocate_inquires _ _) (fun _ => ?_) _
  split
  · exact .bind (Allocator.allocate_inquires _ _) fun _ => .pure _
  · exact .pure _

/-- **A renamed member was seen to override nothing,** hard-private ones apart. -/
theorem exists_overrides_eq_false {owner : SymbolId} (hw : WellScoped p) (hs : p.source.LaidOut)
    (hsel : ∀ f ∈ files, f ∈ p.source.fileIds)
    (h : ((planMangle files opts).value p).Renames s)
    (howner : (p.symbol s).owner = some owner) (hsoft : (p.symbol s).has .hardPrivate = false) :
    ∃ q, Build.RunAt (Program.classifier.overrides s owner) p ((planMangle files opts).after p) q ∧
      Build.value (Program.classifier.overrides s owner) q = false := by
  obtain ⟨r, hr, rfl⟩ := h
  obtain ⟨e, he, hsymbol, _⟩ := (settled_planMangle opts hw hs hsel).2 r hr
  obtain ⟨hmem, hpublic⟩ := Analysis.visibility_of_mem_candidates he
  obtain ⟨f, _, q₀, hq₀, hrec, surface, q, hq, hreason⟩ := exists_classify_of_mem hmem
  have hkept₀ := Program.Extends.symbol_kept hq₀.later (Program.idx_lt_of_owner howner)
  have hkept := Program.Extends.symbol_kept (hq₀.later.trans hq.later)
    (Program.idx_lt_of_owner howner)
  rw [hsymbol] at hkept₀ hkept howner hsoft ⊢
  rw [Entry.visibility, hreason] at hpublic
  have howned := (Program.owner_of_mem_scopedSymbols hrec).trans (hkept₀.owner.trans howner)
  obtain ⟨q', hq', hover⟩ := Program.overrides_eq_false hpublic howned (hkept.hard.trans hsoft)
  exact ⟨q', hq'.widen (hq₀.trans hq.before)
    (hq.after.trans (analyze_runAt_planMangle files opts p).after), hover⟩

end ManglePlan

end Moniker
