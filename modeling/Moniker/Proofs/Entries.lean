/-
# What an analysis says about a declaration

An entry of an analysis is a declaration of one of the files, with the domain and
the reason it has in the program as it stood when the entry was made
(`exists_classify_of_mem`).  In between only types were worked out, so a symbol of a
scope has the traits, the owner and the scope it had before.

What was decided there goes by answers that the program gave at that time.
`Build.RunAt` keeps hold of it: nothing but questions was put to the program before,
and nothing else since.

An entry that is public by its plain reason is no candidate for a new name
(`visibility_of_mem_candidates`).
-/

import Moniker.Naming.Allocation
import Moniker.Proofs.Inquiry

namespace Moniker
namespace Program

/-- The program after questions about types. -/
def Later (p q : Program) : Prop := Extends p.source p q

namespace Later

variable {p q r : Program}

theorem refl (p : Program) : Later p p := Extends.refl p

theorem trans (h₁ : Later p q) (h₂ : Later q r) : Later p r := by
  unfold Later at h₂
  rw [Extends.source_eq h₁] at h₂
  exact Extends.trans h₁ h₂

theorem scope_eq (h : Later p q) (c : ScopeId) : q.scope c = p.scope c := by
  rw [Program.scope, Program.scope, Extends.scopes_eq h]

theorem outward_eq (h : Later p q) (c : ScopeId) : q.outward c = p.outward c :=
  outward_congr (Extends.scopes_eq h) c

end Later

theorem Asked.later {p q : Program} (h : Asked p q) : Later p q := h.extends

end Program

namespace Build

open Program (Asked Later)

variable {α β γ : Type} {m : Build α} {p p' q final final' : Program}

/-- On the way from `p` to `final` the computation was run at `q`, and nothing but questions was
put to the program before and since. -/
structure RunAt (m : Build α) (p final q : Program) : Prop where
  before : Asked p q
  after : Asked (m.after q) final

theorem RunAt.later (h : m.RunAt p final q) : Later p q := h.before.later

/-- The way may be longer on both ends. -/
theorem RunAt.widen (h : m.RunAt p final q) (hp : Asked p' p) (hfinal : Asked final final') :
    m.RunAt p' final' q := ⟨hp.trans h.before, h.after.trans hfinal⟩

namespace Inquires

theorem later (hm : Inquires m) (p : Program) : Later p (m.after p) := (hm p).later

variable {g : γ → Build β} {xs : List γ}

/-- The rest of a list is gone through after its first value. -/
theorem mapM_cons {x : γ} (hg : ∀ z ∈ x :: xs, Inquires (g z)) (p : Program) :
    (g x).RunAt p (((x :: xs).mapM g).after p) p := by
  rw [List.mapM_cons]
  exact ⟨.refl, Inquires.mapM (fun z hz => hg z (List.mem_cons_of_mem _ hz)) _⟩

/-- A value of a list was found on the way. -/
theorem of_mem_mapM (hg : ∀ x ∈ xs, Inquires (g x)) {y : β} (hy : y ∈ (xs.mapM g).value p) :
    ∃ x ∈ xs, ∃ q, (g x).RunAt p ((xs.mapM g).after p) q ∧ y = (g x).value q := by
  induction xs generalizing p with
  | nil => exact nomatch hy
  | cons x xs ih =>
    have hfirst := mapM_cons hg p
    rw [List.mapM_cons] at hy hfirst ⊢
    rcases List.mem_cons.mp hy with hy | hy
    · exact ⟨x, List.mem_cons_self, p, hfirst, hy⟩
    · obtain ⟨x', hx', q, hq, heq⟩ := ih (fun z hz => hg z (List.mem_cons_of_mem _ hz)) hy
      exact ⟨x', List.mem_cons_of_mem _ hx', q,
        hq.widen (hg x List.mem_cons_self p) .refl, heq⟩

/-- What was answered on the way for a value of the list is in the result. -/
theorem exists_mem_mapM (hg : ∀ x ∈ xs, Inquires (g x)) {x : γ} (hx : x ∈ xs) :
    ∃ q, (g x).RunAt p ((xs.mapM g).after p) q ∧ (g x).value q ∈ (xs.mapM g).value p := by
  induction xs generalizing p with
  | nil => exact absurd hx List.not_mem_nil
  | cons y ys ih =>
    have hfirst := mapM_cons hg p
    rw [List.mapM_cons] at hfirst ⊢
    rcases List.mem_cons.mp hx with rfl | hx
    · exact ⟨p, hfirst, List.mem_cons_self⟩
    · obtain ⟨q, hq, hmem⟩ :=
        @ih ((g y).after p) (fun z hz => hg z (List.mem_cons_of_mem _ hz)) hx
      exact ⟨q, hq.widen (hg y List.mem_cons_self p) .refl, List.mem_cons_of_mem _ hmem⟩

end Inquires
end Build

namespace Program

variable {p : Program} {rec : ScopedSymbol} {f : FileId}

/-- What is recorded of a declaration. -/
theorem mem_scopedSymbols (h : rec ∈ classifier.scopedSymbols p f) :
    rec.decl ∈ p.source.nodesOf f ∧ p.declared[rec.decl]? = some rec.symbol ∧
      rec.exported = (p.exportsOfFile f).contains rec.symbol ∧
      ((p.symbol rec.symbol).owner = none → rec.domain = .lexical (p.symbol rec.symbol).scope) := by
  obtain ⟨l, hl, rfl⟩ := List.mem_map.mp h
  obtain ⟨d, hd, rfl⟩ := List.mem_map.mp hl
  obtain ⟨n, hn, hdecl⟩ := List.mem_filterMap.mp hd
  obtain ⟨s, hs, rfl⟩ := Option.map_eq_some_iff.mp hdecl
  refine ⟨hn, hs, rfl, fun howner => ?_⟩
  dsimp only at howner ⊢
  rw [howner]

/-- A declaration is listed with the owner of its symbol. -/
theorem owner_of_mem_scopedSymbols (h : rec ∈ classifier.scopedSymbols p f) :
    rec.owner = (p.symbol rec.symbol).owner := by
  obtain ⟨l, hl, rfl⟩ := List.mem_map.mp h
  obtain ⟨d, -, rfl⟩ := List.mem_map.mp hl
  rfl

/-- A symbol with an owner is there. -/
theorem idx_lt_of_owner {s owner : SymbolId} (h : (p.symbol s).owner = some owner) :
    s.idx < p.symbols.size := by
  by_contra hge
  rw [symbol, getD_of_size_le (Nat.le_of_not_lt hge)] at h
  exact absurd h (Option.some_ne_none owner).symm

/-- A member has the domain of its owner. -/
theorem domain_of_mem_scopedSymbols {owner : SymbolId} (h : rec ∈ classifier.scopedSymbols p f)
    (howner : (p.symbol rec.symbol).owner = some owner) :
    rec.domain = if (p.symbol rec.symbol).has .hardPrivate then .hardPrivate owner
      else .members owner := by
  obtain ⟨l, hl, rfl⟩ := List.mem_map.mp h
  obtain ⟨d, -, rfl⟩ := List.mem_map.mp hl
  dsimp only at howner ⊢
  rw [howner]
  rfl

theorem public_ite {c : Prop} [Decidable c] {reason : Reason} {rest : Option Reason}
    (hreason : reason.visibility = .public_)
    (h : ∃ reason, rest = some reason ∧ reason.visibility = .public_) :
    ∃ r, (if c then some reason else rest) = some r ∧ r.visibility = .public_ := by
  split
  · exact ⟨reason, rfl, hreason⟩
  · exact h

/-- Aliases, ambient and exported symbols, names written as literals, members of object
literals, and parameters that are properties keep their names. -/
theorem plainReason?_public (reserved : List String) (rec : ScopedSymbol)
    (h : (p.symbol rec.symbol).isAlias = true ∨ (p.symbol rec.symbol).has .ambient = true ∨
      rec.exported = true ∨ (p.symbol rec.symbol).has .quoted = true ∨
      ((p.symbol rec.symbol).has .parameter = true ∧ (p.symbol rec.symbol).has .property = true) ∨
      ∃ o, rec.owner = some o ∧ (p.symbol o).isObjectLiteral = true) :
    ∃ reason, classifier.plainReason? p reserved rec = some reason ∧ reason.visibility = .public_ := by
  unfold Classifier.plainReason?
  rcases h with halias | hambient | hexported | hquoted | ⟨hpar, hprop⟩ | ⟨o, howner, hliteral⟩
  · exact ⟨_, if_pos halias, rfl⟩
  · iterate 2 refine public_ite rfl ?_
    exact ⟨_, if_pos (Bool.or_eq_true_iff.mpr (.inl hambient)), rfl⟩
  · iterate 3 refine public_ite rfl ?_
    exact ⟨_, if_pos hexported, rfl⟩
  · iterate 4 refine public_ite rfl ?_
    exact ⟨_, if_pos hquoted, rfl⟩
  · iterate 7 refine public_ite rfl ?_
    exact ⟨_, if_pos (Bool.and_eq_true_iff.mpr ⟨hpar, hprop⟩), rfl⟩
  · iterate 8 refine public_ite rfl ?_
    rw [howner]
    exact ⟨_, if_pos hliteral, rfl⟩

/-- A plain reason makes a declaration public unless its symbol is hard-private. -/
theorem visibility_of_plainReason? {reserved : List String} {reason : Reason}
    (h : classifier.plainReason? p reserved rec = some reason)
    (hsoft : (p.symbol rec.symbol).has .hardPrivate = false) : reason.visibility = .public_ := by
  unfold Classifier.plainReason? at h
  dsimp only at h
  have hsoft' : (classifier.symbol p rec.symbol).has .hardPrivate = false := hsoft
  rw [hsoft', if_neg Bool.false_ne_true] at h
  repeat'
    split at h
    · rw [← Option.some.inj h]
      rfl
  exact nomatch h

end Program

open Program (Later)

theorem Program.classify_of_plainReason {r : Surface} {reserved : List String}
    {rec : ScopedSymbol} {p : Program} {reason : Reason}
    (h : classifier.plainReason? p reserved rec = some reason) :
    Build.value (classifier.classify r reserved rec) p = reason := by
  unfold Classifier.classify
  rw [Build.value_bind]
  simp only [Build.value_get, h]
  rfl

/-- **A member that is not public overrides nothing,** hard-private ones apart. -/
theorem Program.overrides_eq_false {r : Surface} {reserved : List String} {rec : ScopedSymbol}
    {p : Program} {owner : SymbolId}
    (h : (Build.value (classifier.classify r reserved rec) p).visibility ≠ .public_)
    (howner : rec.owner = some owner) (hsoft : (p.symbol rec.symbol).has .hardPrivate = false) :
    ∃ q, Build.RunAt (classifier.overrides rec.symbol owner) p
        (Build.after (classifier.classify r reserved rec) p) q ∧
      Build.value (classifier.overrides rec.symbol owner) q = false := by
  cases hplain : classifier.plainReason? p reserved rec with
  | some reason =>
    rw [classify_of_plainReason hplain] at h
    exact absurd (visibility_of_plainReason? hplain hsoft) h
  | none =>
    unfold Classifier.classify at h ⊢
    rw [Build.value_bind] at h
    rw [Build.after_bind]
    simp only [Build.value_get, Build.after_get, hplain, howner] at h ⊢
    rw [Build.value_bind] at h
    rw [Build.after_bind]
    split at h
    · exact absurd rfl h
    · next hrelated =>
      rw [if_neg hrelated, Build.after_bind]
      rw [Build.value_bind] at h
      refine ⟨_, ⟨isRelated_inquires r rec.symbol p, ?_⟩, ?_⟩
      · split
        · exact .refl
        · exact (annotatedPublic_inquires r rec.decl).bind
            (fun _ => by split <;> exact .pure _) _
      · split at h
        · exact absurd rfl h
        · next hover => exact Bool.eq_false_iff.mpr hover

/-- **An entry is a declaration of one of the files,** with the reason it was classified by on
the way. -/
theorem exists_classify_of_mem {files : List FileId} {opts : SurfaceOptions} {p : Program}
    {e : Entry} (he : e ∈ ((analyze files opts).value p).entries) :
    ∃ f ∈ files, ∃ q, Program.Asked p q ∧
      e.toScopedSymbol ∈ Program.classifier.scopedSymbols q f ∧
      ∃ surface q', Build.RunAt
          (Program.classifier.classify surface opts.reserved e.toScopedSymbol) q
          ((analyze files opts).after p) q' ∧
        e.reason =
          Build.value (Program.classifier.classify surface opts.reserved e.toScopedSymbol) q' := by
  obtain ⟨results, hresults, he⟩ := List.mem_flatMap.mp he
  obtain ⟨f, hf, q, hq, rfl⟩ := Build.Inquires.of_mem_mapM
    (fun f _ => Program.analyzeFile_inquires _ _ f) hresults
  obtain ⟨rec, hrec, q', hq', rfl⟩ := Build.Inquires.of_mem_mapM
    (fun rec _ => Program.entry_inquires _ _ rec) he
  exact ⟨f, hf, q, (collectSurface_inquires files opts p).trans hq.before, hrec, _, q',
    ⟨hq'.before, hq'.after.trans hq.after⟩, rfl⟩

theorem entry_of_mem {files : List FileId} {opts : SurfaceOptions} {p : Program} {e : Entry}
    (he : e ∈ ((analyze files opts).value p).entries) :
    ∃ f ∈ files, ∃ q, Later p q ∧ e.toScopedSymbol ∈ Program.classifier.scopedSymbols q f ∧
      ∃ surface q', Later q q' ∧
        e.reason =
          Build.value (Program.classifier.classify surface opts.reserved e.toScopedSymbol) q' := by
  obtain ⟨f, hf, q, hq, hrec, surface, q', hq', hreason⟩ := exists_classify_of_mem he
  exact ⟨f, hf, q, hq.later, hrec, surface, q', hq'.later, hreason⟩

namespace Analysis

variable {a : Analysis} {e : Entry}

theorem mem_firstEntries {seen : List SymbolId} {es : List Entry} (h : e ∈ firstEntries seen es) :
    e ∈ es ∧ e.symbol ∉ seen := by
  induction es generalizing seen with
  | nil => exact nomatch h
  | cons e' rest ih =>
    unfold firstEntries at h
    split at h
    · obtain ⟨hmem, hseen⟩ := ih h
      exact ⟨List.mem_cons_of_mem _ hmem, hseen⟩
    · next hnew =>
      rcases List.mem_cons.mp h with rfl | h
      · exact ⟨List.mem_cons_self, fun hin => hnew (List.contains_iff_mem.mpr hin)⟩
      · obtain ⟨hmem, hseen⟩ := ih h
        exact ⟨List.mem_cons_of_mem _ hmem, fun hin => hseen (List.mem_cons_of_mem _ hin)⟩

/-- **A candidate's entries are not public.** -/
theorem visibility_of_mem_candidates (h : e ∈ a.candidates) :
    e ∈ a.entries ∧ e.visibility ≠ .public_ := by
  obtain ⟨hmem, hfree⟩ := mem_firstEntries h
  refine ⟨hmem, fun hpublic => hfree ?_⟩
  exact List.mem_map.mpr ⟨e, List.mem_filter.mpr ⟨hmem, by rw [hpublic]; rfl⟩, rfl⟩

end Analysis
end Moniker
