/-
# Closed bundles

If nothing is reported, what an import of the entry binds, and what a copied declaration
uses of its module, stands at the top level of the bundle for what it stood for before
(`closed_bundle`): a line introduces it or the entry declares it, and nothing else takes
the name.

No line is added for a declaration of the entry itself.  So a file that imports one back is
served only if the entry declares it under the name that the file knows it by.
-/

import Moniker.Proofs.Bundling.Order
import Moniker.Proofs.Bundling.Ownership

namespace Moniker
namespace Bundle

variable {p : Program} {entry : FileId} {s : State} {t b : SymbolId} {d : NodeId} {imp : Import}
  {name : String} {use : SymbolId × NodeId}

/-- A name stands for a symbol at the top level of a bundle. -/
structure Denotes (p : Program) (entry : FileId) (s : State) (name : String) (t : SymbolId) :
    Prop where
  bound : Declares p entry name t ∨ ∃ l ∈ s.lines.toList, l.Introduces p name t
  only : ∀ u, Takes p entry s name u → u = t

/-- The name of an import stands for the declaration that its alias ends at, unless the entry
declares that under another name. -/
def Resolves (p : Program) (entry : FileId) (s : State) (b : SymbolId) : Prop :=
  (p.symbol b).decls ≠ [] → ∃ t, p.aliasEnd b = some t ∧
    (((p.symbol t).file = entry → Declares p entry (p.symbol b).name t) →
      Denotes p entry s (p.symbol b).name t)

/-- What a copied declaration uses stands for what it stood for in its file: imports, except
for those of types, and what is declared next to it. -/
structure Carried (p : Program) (entry : FileId) (s : State) (d : NodeId) (t : SymbolId) :
    Prop where
  imported : ((p.symbol t).has .importBinding || (p.symbol t).has .namespaceImport) = true →
    ∀ imp, importOf? p t = some imp → imp.typeOnly = false → Resolves p entry s t
  declared : ((p.symbol t).has .importBinding || (p.symbol t).has .namespaceImport) = false →
    p.source.fileOf d ≠ entry → (p.symbol t).scope = some (p.moduleOf (p.source.fileOf d)).scope →
    Denotes p entry s (p.symbol t).name t

/-- What it means that a bundle is closed when it ends. -/
structure Closed (p : Program) (entry : FileId) (s : State) : Prop where
  imports : ∀ imp ∈ (p.moduleOf entry).imports, imp.typeOnly = false ∧ imp.bindings ≠ [] ∧
    ∀ b ∈ imp.bindings, Resolves p entry s b
  uses : ∀ t d, (t, d) ∈ s.lines.toList.filterMap Line.copied? →
    ∀ use ∈ usedSymbols p d, Carried p entry s d use.1

theorem Denotes.of_named (hw : Written p entry s) (ho : Owned p entry s)
    (h : name ∈ s.namesOf t) : Denotes p entry s name t :=
  ⟨.inr (hw.introduced t name h), fun _ hu => ho.unique hu (.inr h)⟩

theorem Denotes.of_declares (ho : Owned p entry s) (h : Declares p entry name t) :
    Denotes p entry s name t := ⟨.inl h, fun _ hu => ho.unique hu (.inl h)⟩

/-- An import resolves if it is not refused, and its target has the name that is asked for. -/
theorem resolves_of_requested (hw : Written p entry s) (ho : Owned p entry s)
    (htype : imp.typeOnly = false) (hrefused : ∀ d, requested p entry b imp ≠ .error d)
    (hserved : ∀ r, requested p entry b imp = .ok (some r) → r.localName ∈ s.namesOf r.target) :
    Resolves p entry s b := by
  intro hdecls
  obtain ⟨d, hd⟩ | ⟨t, halias, ht⟩ := @requested_cases p entry b imp hdecls htype
  · exact absurd hd (hrefused d)
  refine ⟨t, halias, fun hown => ?_⟩
  obtain hfile | ⟨r, hr, hname, rfl⟩ := ht
  · exact .of_declares ho (hown hfile)
  · exact .of_named hw ho (hname ▸ hserved r hr)

/-- What is used of a supplied declaration is not refused, and has the name it is used by. -/
theorem Supplied.granted (h : Supplied p entry s d) (hclean : ¬ s.Blemished)
    (huse : use ∈ usedSymbols p d) : ∃ r?, requestedBy p entry d use = .ok r? ∧
      ∀ r, r? = some r → r.localName ∈ s.namesOf r.target := by
  cases hr : requestedBy p entry d use with
  | error e => exact absurd (h.reported use huse e hr) hclean
  | ok r? =>
    refine ⟨r?, rfl, ?_⟩
    rintro r rfl
    have hneed : r ∈ needs p entry d := by
      rw [needs_eq]
      exact List.mem_filterMap.mpr ⟨use, huse, by rw [hr]; rfl⟩
    obtain hname | ⟨-, hblemished⟩ := h.settled r hneed
    · exact hname
    · exact absurd hblemished hclean

theorem Supplied.carried (h : Supplied p entry s d) (hw : Written p entry s)
    (ho : Owned p entry s) (hclean : ¬ s.Blemished) (huse : use ∈ usedSymbols p d) :
    Carried p entry s d use.1 := by
  obtain ⟨r?, hr, hserved⟩ := h.granted hclean huse
  unfold requestedBy at hr
  dsimp only at hr
  refine ⟨fun himport imp himp htype => ?_, fun himport hfile hscope => ?_⟩
  · rw [if_pos himport, himp] at hr
    dsimp only at hr
    refine resolves_of_requested hw ho htype (fun e he => ?_) fun r he => ?_
    · rw [he] at hr
      cases hr
    · rw [he] at hr
      obtain rfl := Except.ok.inj hr
      exact hserved { r with cause := use.2 } rfl
  · rw [if_neg (by rw [himport]; exact Bool.false_ne_true),
      if_pos (by rw [hscope]; simpa using hfile)] at hr
    obtain rfl := Except.ok.inj hr
    exact .of_named hw ho (hserved _ rfl)

/-- The declaration that a line copies is supplied. -/
theorem Written.supplied (hw : Written p entry s) (hs : Sound p entry none s)
    (h : (t, d) ∈ s.lines.toList.filterMap Line.copied?) : Supplied p entry s d := by
  obtain ⟨sh, hinlined⟩ := hs.named t (hw.named t (List.mem_map.mpr ⟨(t, d), h, rfl⟩))
  obtain ⟨l, hl, hcopied⟩ := List.mem_filterMap.mp h
  obtain ⟨above, below, hlines⟩ := List.append_of_mem hl
  obtain ⟨k, hk⟩ := (hw.ordered above l below hlines).shape t d hcopied
  obtain rfl := Option.some.inj ((hs.shape t sh hinlined).symm.trans hk)
  exact hs.supplied t _ hinlined

end Bundle

open Moniker.Bundle

/-- **A bundle without reports is closed.** -/
theorem closed_bundle {p : Program} {path : String} {strict : Bool} {r : BundleResult}
    (h : ((bundle path strict).value p).1 = .ok r) (hr : r.diagnostics = []) :
    ∃ entry s, Yields p path strict entry s r ∧ Closed p entry s := by
  obtain ⟨entry, s, hyields⟩ := yields_of_bundle h
  obtain ⟨body, q, hrun⟩ := hyields.run_ok
  obtain ⟨-, hsteps, hstack, hdone⟩ := run_ok hrun
  have hquiet : s.Quiet := by
    obtain ⟨body', -, rfl⟩ := hyields.result
    exact fun d hd => List.not_mem_nil (hr ▸ State.mem_diagnostics.mpr hd)
  have hclean := hquiet.not_blemished
  have hs := (Sound.start p entry).steps hsteps
  have hw := (Written.start p entry).steps (.start p entry) hsteps
  have ho := (Owned.start p entry).steps hsteps hquiet
  refine ⟨entry, s, hyields, fun imp himp => ?_, fun t d ht use huse => ?_⟩
  · have hnot : ¬ (imp.isSideEffect || imp.typeOnly) = true :=
      fun hwhole => hclean ((hdone imp himp).whole hwhole)
    obtain ⟨hempty, htype⟩ := Bool.or_eq_false_iff.mp (eq_false_of_ne_true hnot)
    refine ⟨htype, fun hnil => ?_, fun b hb => ?_⟩
    · rw [Import.isSideEffect, hnil] at hempty
      cases hempty
    · have hb' := (hdone imp himp).bindings b hb
      refine resolves_of_requested hw ho htype (fun d hd => ?_) fun r hr => ?_
      · exact hclean (hb'.refused d hd)
      · obtain hname | ⟨-, hblemished⟩ := (hb'.served r hr).settled hstack
        · exact hname
        · exact absurd hblemished hclean
  · exact (hw.supplied hs ht).carried hw ho hclean huse

/-- What is imported needs another constant of its file, and no name clashes. -/
theorem closed_bundle_importing : ∃ p r, Program.build [importing "d = a;", library] = .ok p ∧
    ((bundle "index.ts" false).value p).1 = .ok r ∧ r.diagnostics = [] ∧
    ∃ entry s, Yields p "index.ts" false entry s r ∧ Closed p entry s := by
  have hquiet : codesImporting "d = a;" false = some [] := by decide +kernel
  obtain ⟨r, hr, hcodes⟩ := exists_bundle_importing hquiet
  have hnone : r.diagnostics = [] := List.map_eq_nil_iff.mp hcodes
  exact ⟨_, r, build_importing _, hr, hnone, closed_bundle hr hnone⟩

end Moniker
