/-
# Exported declarations

A declaration of an export statement is exported if the symbol it introduces is the
one that the module exports under its name.  Every symbol that such a declaration
introduces gets an export of its name (`Program.isAlias_or_hasExport`).  But there is
one export for a name, and a later declaration of the same name takes it over.

So a symbol introduced by an export statement is renamed only if another symbol of
that name has become the export (`exportsKeepNames_planMangle`).  That happens to a
type and a value of one name that do not merge, as in `exportedTwice`, where the
interface is renamed.
-/

import Moniker.Proofs.Binding.Notes
import Moniker.Proofs.NoCapture

namespace Moniker
namespace Binding

open Program (Grows)

variable {src : Source} {visit : Visit} {site : Site} {r n decl d : NodeId} {sc : ScopeId}
  {s : SymbolId} {p q : Program} {f : FileId}

/-- The module exports something under the name of the symbol. -/
def HasExport (src : Source) (n : NodeId) (m : ModuleId) (p : Program) (s : SymbolId) : Prop :=
  ((p.moduleInfo m).ownExport? (exportedName src n (p.symbol s).name)).isSome = true

theorem HasExport.grows {m : ModuleId} (hg : p.Grows q) (hm : m.idx < p.modules.size)
    (hs : s.idx < p.symbols.size) (h : HasExport src n m p s) : HasExport src n m q s := by
  unfold HasExport
  rw [(hg.symbol s hs).name]
  exact (hg.module m hm).exports _ h

/-- **Symbols that are exported have an export of their name.** -/
theorem exportAll_spec (syms : List SymbolId) (l : List SymbolId) (p : Program)
    (hm : site.module.idx < p.modules.size) :
    ∃ q, Bind.after (exportAll src site n syms) (l, p) = (l, q) ∧ q.symbols = p.symbols ∧
      p.Grows q ∧ ∀ s ∈ syms, HasExport src n site.module q s := by
  induction syms generalizing p with
  | nil => exact ⟨p, rfl, rfl, .refl p, fun _ h => nomatch h⟩
  | cons sym syms ih =>
    let p₁ := p.modifyModule site.module fun m =>
      m.addExport (exportedName src n (p.symbol sym).name) sym
    have hg₁ : p.Grows p₁ := .modifyModule _ fun _ => .addExport ..
    obtain ⟨q, hafter, hsymbols, hg, hexports⟩ := ih p₁ (hm.trans_le hg₁.modules_le)
    refine ⟨q, hafter, hsymbols, hg₁.trans hg, List.forall_mem_cons.mpr ⟨?_, hexports⟩⟩
    have hname : (q.symbol sym).name = (p.symbol sym).name := by
      rw [Program.symbol, hsymbols]
      rfl
    rw [HasExport, hname]
    refine (hg.module _ (hm.trans_le hg₁.modules_le)).exports _ ?_
    rw [Program.moduleInfo_modifyModule, if_pos ⟨rfl, hm⟩]
    exact Module.Grows.ownExport?_addExport (.inl rfl)

/-- **What an exported declaration introduces has an export,** aliases and what its
parts collect for themselves apart. -/
theorem exportDeclaration_exports (hv : VisitKeeps src visit) (hk : Known src site decl p)
    (hat : At src site sc p) (l : List SymbolId) (hnew : p.symbols.size ≤ s.idx) :
    let q := (Bind.after (exportDeclaration src visit site n decl sc) (l, p)).2
    s.idx < q.symbols.size → (q.symbol s).scope = some sc → Heads q s d → ¬ Secluded src decl d →
      (q.symbol s).isAlias = true ∨ HasExport src n site.module q s := by
  let inner : Site := { site with collecting := some sc }
  have hrun : Run src site.file (some sc) decl ([], p) (Bind.after (visit inner decl sc) ([], p)) :=
    hv inner decl sc [] p { hk with } hat
  have hafter : Bind.after (exportDeclaration src visit site n decl sc) (l, p) =
      let st := Bind.after (visit inner decl sc) ([], p)
      Bind.after (exportAll src site n (if st.1.isEmpty && src.hasToken n "default" then
        (st.2.classAt[decl]?).toList else st.1)) (l, st.2) := rfl
  dsimp only at hafter ⊢
  rw [hafter]
  generalize Bind.after (visit inner decl sc) ([], p) = st at hrun ⊢
  obtain ⟨found, p'⟩ := st
  obtain ⟨q, hq, hsymbols, hg, hexports⟩ := @exportAll_spec src site n
    (if found.isEmpty && src.hasToken n "default" then (p'.classAt[decl]?).toList else found) l p'
    (hk.module_lt.trans_le hrun.grows.modules_le)
  dsimp only
  rw [hq]
  intro hlt hscope hhead hsec
  have hsame : q.symbol s = p'.symbol s := by rw [Program.symbol, Program.symbol, hsymbols]
  rw [hsymbols] at hlt
  rw [hsame] at hscope ⊢
  rw [Heads, hsame] at hhead
  obtain ⟨d', hd', _, hcases⟩ := hrun.origin hnew hlt hscope
  obtain rfl : d' = d := Option.some.inj (hd'.symm.trans hhead)
  rcases hcases rfl with hfound | halias | hsec'
  · refine .inr (hexports s ?_)
    have hne : found.isEmpty = false := by
      cases found with
      | nil => exact absurd hfound List.not_mem_nil
      | cons => rfl
    rw [hne, Bool.false_and, if_neg Bool.false_ne_true]
    exact hfound
  · exact .inl halias
  · exact absurd hsec' hsec

/-- An export statement at the top of a file, with a declaration. -/
structure TopExport (src : Source) (f : FileId) (n decl : NodeId) : Prop where
  mem : n ∈ src.children (src.file f).root
  kind : src.kind n = "export_statement"
  decl : src.child? n "declaration" = some decl

/-- The declaration introduces the symbol into the scope: the first declaration of the
symbol lies below it, and not in a part that exports for itself. -/
structure Introduces (src : Source) (p : Program) (decl : NodeId) (sc : ScopeId) (s : SymbolId) :
    Prop where
  scope : (p.symbol s).scope = some sc
  head : ∃ d, Heads p s d ∧ src.Below decl d ∧ ¬ Secluded src decl d

/-- What export statements of the file introduce into its scope has an export, and
symbols of scopes have declarations. -/
structure Exporting (src : Source) (f : FileId) (p : Program) : Prop where
  headed : ∀ s, (p.symbol s).scope ≠ none → ∃ d, Heads p s d
  exports : ∀ {n decl s}, TopExport src f n decl →
    Introduces src p decl (p.moduleOf f).scope s →
      (p.symbol s).isAlias = true ∨ HasExport src n ⟨f.idx⟩ p s

/-- A visit of a top-level node keeps what is exported, if it exports what it
introduces itself. -/
theorem Exporting.run {g : FileId} {c : NodeId} {l l' : List SymbolId} (h : Exporting src f p) (hm : f.idx < p.modules.size)
    (hrun : Run src g none c (l, p) (l', q))
    (hnew : ∀ {decl s}, c ∈ src.children (src.file f).root → TopExport src f c decl →
      p.symbols.size ≤ s.idx → s.idx < q.symbols.size →
      Introduces src q decl (p.moduleOf f).scope s →
      (q.symbol s).isAlias = true ∨ HasExport src c ⟨f.idx⟩ q s)
    (hc : ∀ n ∈ src.children (src.file f).root, ∀ d, src.Below c d → src.Below n d → c = n) :
    Exporting src f q := by
  have hg := hrun.grows
  have hlt_of_scope : ∀ {s}, (q.symbol s).scope ≠ none → s.idx < q.symbols.size := by
    intro s hne
    by_contra hge
    rw [Program.symbol_of_size_le (not_lt.mp hge)] at hne
    exact hne rfl
  refine ⟨fun s hne => ?_, fun {n decl s} hn hintro => ?_⟩
  · rcases lt_or_ge s.idx p.symbols.size with hold | hnew
    · obtain ⟨d, hd⟩ := h.headed s (by rwa [← (hg.symbol s hold).scope])
      exact ⟨d, hd.grows hg hold⟩
    · obtain ⟨t, ht⟩ := Option.ne_none_iff_exists'.mp hne
      obtain ⟨d, hd, _⟩ := hrun.origin hnew (hlt_of_scope hne) ht
      exact ⟨d, hd⟩
  · obtain ⟨d, hd, hbelow, hsec⟩ := hintro.head
    have hmodule : (q.moduleOf f).scope = (p.moduleOf f).scope := (hg.module ⟨f.idx⟩ hm).scope
    have hscope := hintro.scope
    rw [hmodule] at hscope
    rcases lt_or_ge s.idx p.symbols.size with hold | hge
    · have hsym := hg.symbol s hold
      rw [hsym.scope] at hscope
      obtain ⟨d', hd'⟩ := h.headed s (by rw [hscope]; exact Option.some_ne_none _)
      obtain rfl : d' = d := Option.some.inj ((hd'.grows hg hold).symm.trans hd)
      refine (h.exports hn ⟨hscope, d', hd', hbelow, hsec⟩).imp ?_ ?_
      · exact fun halias => hsym.traits.meets halias
      · exact fun hexport => hexport.grows hg hm hold
    · have hlt := hlt_of_scope (s := s) (by rw [hscope]; exact Option.some_ne_none _)
      obtain ⟨d', hd', hcd, _⟩ := hrun.origin hge hlt hscope
      obtain rfl : d' = d := Option.some.inj (hd'.symm.trans hd)
      obtain rfl := hc n hn.mem d' hcd ((Source.Below.refl.child? hn.decl).trans hbelow)
      exact hnew hn.mem hn hge hlt ⟨hscope, d', hd, hbelow, hsec⟩

theorem visitTop_exportDeclaration (hkind : src.kind n = "export_statement")
    (hdecl : src.child? n "declaration" = some decl) :
    visitTop src f sc n =
      exportDeclaration src (visitWithin src src.nodes.size) (Site.ofFile src f) n decl sc := by
  rw [visitTop_export hkind, visitExport, hdecl]

/-- **Declaring a file keeps what is exported and exports what it introduces.** -/
theorem Exporting.bindFile {g : FileId} (hs : src.LaidOut) (hf : f ∈ src.fileIds)
    (hg : g ∈ src.fileIds) (hk : Known src (.ofFile src g) (src.file g).root p)
    (hm : f.idx < p.modules.size) (h : Exporting src f p) :
    Exporting src f ((Binding.bindFile src g).after p) := by
  refine (bindFile_keeps (I := fun q => f.idx < q.modules.size ∧ Exporting src f q) hs
    (fun c hc st hst ⟨hm, h⟩ => ?_) hk ⟨hm, h⟩).2
  obtain ⟨l, p⟩ := st
  have hc : c ∈ src.children (src.file g).root := (List.mem_filter.mp hc).1
  have hfile : src.fileOf c = g := (hs.file_eq hc).trans (hs.root hg).2.2
  obtain ⟨hrun, _⟩ := hst.run hs ‹_›
  -- A file that has `c` or something below it at its top is this file.
  have hsame : ∀ n ∈ src.children (src.file f).root, ∀ d, src.Below c d → src.Below n d → g = f := by
    intro n hn d hcd hnd
    rw [← hfile, ← hcd.fileOf_eq hs, hnd.fileOf_eq hs, hs.file_eq hn, (hs.root hf).2.2]
  refine ⟨hm.trans_le hrun.grows.modules_le, h.run hm hrun ?_ ?_⟩
  · intro decl s hcf hn hnew hlt hintro
    obtain rfl := hsame c hcf c .refl .refl
    obtain ⟨d, hd, _, hsec⟩ := hintro.head
    have hbelow : src.Below c decl := Source.Below.refl.child? hn.decl
    have hk := hst.known
    have hkd : Known src (.ofFile src g) decl p :=
      { hk with file := (hbelow.fileOf_eq hs).trans hfile }
    have hintro' := hintro.scope
    rw [hst.scope] at hintro'
    rw [visitTop_exportDeclaration hn.kind hn.decl] at hlt hintro' hd ⊢
    exact exportDeclaration_exports (visitWithin_keeps hs _) hkd (hst.scope ▸ hk.module) l hnew hlt
      hintro' hd hsec
  · intro n hn d hcd hnd
    obtain rfl := hsame n hn d hcd hnd
    exact hs.sibling_eq hc hn hcd hnd

end Binding

namespace Program

open Binding (Exporting TopExport Introduces HasExport exportedName)

variable {src : Source} {f : FileId} {p : Program} {s : SymbolId} {n decl : NodeId}

/-- **What export statements introduce has an export.** -/
theorem exporting_bound (hs : src.LaidOut) (hf : f ∈ src.fileIds) : Exporting src f (bound src) := by
  have hopening := opening src
  let Inv : Program → Prop := fun p => f.idx < p.modules.size ∧ Exporting src f p
  refine (bound_induction (I := Inv) hs ⟨?_, ?_⟩ fun g hg p hready hp => ?_).2.2
  · rw [hopening.modules_size]
    exact Source.mem_fileIds.mp hf
  · exact ⟨fun s h => absurd (hopening.scopeless s) h,
      fun _ h => nomatch (hopening.scopeless _).symm.trans h.scope⟩
  · obtain ⟨l, hrun⟩ := Binding.bindFile_run hs (hready g hg)
    exact ⟨hp.1.trans_le hrun.grows.modules_le, hp.2.bindFile hs hf hg (hready g hg) hp.1⟩

theorem subset_foldl {α β γ : Type} {step : List α × β → γ → List α × β}
    (h : ∀ acc x, acc.1 ⊆ (step acc x).1) (xs : List γ) (acc : List α × β) :
    acc.1 ⊆ (xs.foldl step acc).1 := by
  induction xs generalizing acc with
  | nil => exact fun _ h => h
  | cons x xs ih => exact fun _ hacc => ih (step acc x) (h acc x hacc)

/-- The exports of a module's own are among all its exports. -/
theorem mem_exportsOf {m : ModuleId} {name : String}
    (h : (p.moduleInfo m).ownExport? name = some s) : s ∈ p.exportsOf m := by
  obtain ⟨e, he, rfl⟩ := Option.map_eq_some_iff.mp h
  have hown : e.2 ∈ (p.moduleInfo m).exports.map Prod.snd :=
    List.mem_map_of_mem (List.mem_of_find?_eq_some he)
  unfold exportsOf exportsWithin
  rw [if_neg (by simp)]
  refine subset_foldl (fun acc spec => ?_) _ _ hown
  dsimp only
  split
  · exact fun _ h => List.mem_append_left _ h
  · exact fun _ h => h

/-! ### The finished program -/

/-- A symbol of a module scope that a name node of another file declares is ambient. -/
theorem fileOf_of_declared (hs : src.LaidOut) (hf : f ∈ src.fileIds) {q : Program}
    (hq : Later (ofSource src) q) (hscope : ((ofSource src).symbol s).scope =
      some ((ofSource src).moduleOf f).scope) (hdecl : q.declared[n]? = some s) :
    ((ofSource src).symbol s).has .ambient = true ∨ src.fileOf n = f := by
  have hsome : ((ofSource src).symbol s).scope ≠ none := by
    rw [hscope]
    exact Option.some_ne_none _
  obtain ⟨hlt, hkept⟩ := kept_ofSource hsome
  have hext : Extends src (linked src) q := by
    unfold Later at hq
    rw [source_ofSource hs] at hq
    exact (extends_linked src).trans hq
  have hold : (bound src).declared[n]? = some s := by
    rcases hext.declared_cases n with heq | ⟨s', hs', _, _, hnone⟩
    · rw [← declared_linked, ← heq]
      exact hdecl
    · obtain rfl : s' = s := Option.some.inj (hs'.symm.trans hdecl)
      have hkept := Extends.symbol_kept hq (symbols_size_of_scope hsome)
      exact absurd (hkept.scope.symm.trans hnone) hsome
  have hmodule := isModule_bound hs hf
  have hscope' : ((bound src).symbol s).scope = some ((bound src).moduleOf f).scope := by
    rw [← hkept.scope, hscope]
    exact congrArg (fun m => some (Module.scope m)) (moduleInfo_ofSource ⟨f.idx⟩)
  rcases ((filed_bound hs).declared hold).2 _ hscope' with ha | ⟨_, hfile⟩
  · refine .inl ?_
    rw [Symbol.has, hkept.traits (by rw [hscope']; exact Option.some_ne_none _)]
    exact ha
  · obtain ⟨m, hm, hnm⟩ := hfile hmodule.kind.2
    obtain rfl : (src.file f).root = m := Option.some.inj (hmodule.node.symm.trans hm)
    exact .inr (hnm.trans (hs.root hf).2.2)

/-- A plan renames a symbol that an export statement of one of the files introduces
only if the module exports another symbol under its name. -/
def ExportsKeepNames (p : Program) (files : List FileId) (plan : ManglePlan) : Prop :=
  ∀ f ∈ files, ∀ {n decl s}, TopExport p.source f n decl →
    Introduces p.source p decl (p.moduleOf f).scope s → plan.Renames s →
      ∃ s', s' ≠ s ∧
        (p.moduleOf f).ownExport? (exportedName p.source n (p.symbol s).name) = some s'

/-- **An export statement's declaration has an export of its name.** -/
theorem isAlias_or_hasExport (hs : src.LaidOut) (hf : f ∈ src.fileIds) (hn : TopExport src f n decl)
    (h : Introduces src (ofSource src) decl ((ofSource src).moduleOf f).scope s) :
    ((ofSource src).symbol s).isAlias = true ∨ HasExport src n ⟨f.idx⟩ (ofSource src) s := by
  have hsome : ((ofSource src).symbol s).scope ≠ none := by
    rw [h.scope]
    exact Option.some_ne_none _
  obtain ⟨hlt, hkept⟩ := kept_ofSource hsome
  have hne : ((bound src).symbol s).scope ≠ none := by rwa [← hkept.scope]
  have hintro : Introduces src (bound src) decl ((bound src).moduleOf f).scope s := by
    obtain ⟨d, hd, hbelow, hsec⟩ := h.head
    refine ⟨?_, d, ?_, hbelow, hsec⟩
    · rw [← hkept.scope, h.scope]
      exact congrArg (fun m => some (Module.scope m)) (moduleInfo_ofSource ⟨f.idx⟩)
    · rwa [Binding.Heads, hkept.decls hne] at hd
  rcases (exporting_bound hs hf).exports hn hintro with halias | hexport
  · refine .inl ?_
    rw [Symbol.isAlias, hkept.traits hne]
    exact halias
  · refine .inr ?_
    rw [HasExport, moduleInfo_ofSource, hkept.name]
    exact hexport

end Program

open Program (Later)

/-- A symbol that its module exports under some name is not renamed. -/
theorem not_renames_of_ownExport {src : Source} {files : List FileId} {opts : MangleOptions}
    {f : FileId} {s : SymbolId} (hs : src.LaidOut) (hsel : ∀ f ∈ files, f ∈ src.fileIds) (hf : f ∈ files)
    (hscope : ((Program.ofSource src).symbol s).scope =
      some ((Program.ofSource src).moduleOf f).scope)
    (h : ((Program.ofSource src).symbol s).isAlias = true ∨
      ∃ name, ((Program.ofSource src).moduleOf f).ownExport? name = some s) :
    ¬ ((planMangle files opts).value (Program.ofSource src)).Renames s := by
  intro hrenames
  have hsource := Program.source_ofSource hs
  obtain ⟨rec, rfl, f', hf', q, hq, hrec, q', hqq', hplain⟩ :=
    ManglePlan.exists_entry_of_renames (Program.wellScoped_ofSource hs) (hsource.symm ▸ hs)
      (hsource.symm ▸ hsel) hrenames
  obtain ⟨hnode, hdecl, hexported, _⟩ := Program.mem_scopedSymbols hrec
  have hsome : ((Program.ofSource src).symbol rec.symbol).scope ≠ none := by
    rw [hscope]
    exact Option.some_ne_none _
  have hkept := Program.Extends.symbol_kept (hq.trans hqq') (Program.symbols_size_of_scope hsome)
  suffices hpublic : (q'.symbol rec.symbol).isAlias = true ∨
      (q'.symbol rec.symbol).has .ambient = true ∨ rec.exported = true by
    obtain ⟨reason, hreason, hvis⟩ := Program.plainReason?_public opts.reserved rec
      (hpublic.imp_right (.imp_right .inl))
    exact hplain reason hreason hvis
  rw [Symbol.isAlias, Symbol.has, hkept.traits hsome]
  refine h.imp_right fun hex => ?_
  obtain ⟨name, hexport⟩ := hex
  rcases Program.fileOf_of_declared hs (hsel f hf) hq hscope hdecl with ha | hfile
  · exact .inl ha
  · -- The declaration is in the file itself, whose exports are looked up.
    rw [Program.Extends.source_eq hq, hsource] at hnode
    have hff : f' = f := (hs.fileOf_of_mem_nodesOf (hsel f' hf') hnode).symm.trans hfile
    have hmodule : q.moduleOf f = (Program.ofSource src).moduleOf f := by
      rw [Program.moduleOf, Program.moduleOf, Program.Extends.modules_eq hq]
    refine .inr ?_
    rw [hexported, hff]
    exact List.contains_iff_mem.mpr (Program.mem_exportsOf (hmodule ▸ hexport))

/-- **Exported declarations keep their names,** unless the export of their name is
another symbol. -/
theorem exportsKeepNames_planMangle {files : List ParsedFile} {p : Program}
    (h : Program.build files = .ok p) {sel : List FileId} (hsel : ∀ f ∈ sel, f ∈ p.source.fileIds)
    (opts : MangleOptions) : p.ExportsKeepNames sel ((planMangle sel opts).value p) := by
  obtain ⟨src, rfl, hs⟩ := Program.laidOut_of_build h
  rw [Program.source_ofSource hs] at hsel
  intro f hf n decl s hn hintro hrenames
  rw [Program.source_ofSource hs] at hn hintro ⊢
  rcases Program.isAlias_or_hasExport hs (hsel f hf) hn hintro with halias | hexport
  · exact absurd hrenames
      (not_renames_of_ownExport hs hsel hf hintro.scope (.inl halias))
  · obtain ⟨s', hs'⟩ := Option.isSome_iff_exists.mp hexport
    refine ⟨s', fun heq => ?_, hs'⟩
    exact not_renames_of_ownExport hs hsel hf hintro.scope (.inr ⟨_, heq ▸ hs'⟩) hrenames

/-- An interface and a constant of one name, both exported: the export is the constant. -/
def exportedTwice : ParsedFile where
  path := "main.ts"
  contents := "export interface Aaa { }\nexport const Aaa = 1".toUTF8
  tree :=
    .node "program" "" true 0 45 [
      .node "export_statement" "" true 0 24 [
        .node "interface_declaration" "declaration" true 7 24 [
          .node "type_identifier" "name" true 17 20 [],
          .node "object_type" "body" true 21 24 []]],
      .node "export_statement" "" true 25 45 [
        .node "lexical_declaration" "declaration" true 32 45 [
          .node "const" "kind" false 32 37 [],
          .node "variable_declarator" "" true 38 45 [
            .node "identifier" "name" true 38 41 [],
            .node "number" "value" true 44 45 []]]]]

theorem exportsKeepNames_planMangle_exportedTwice : ∃ p, Program.build [exportedTwice] = .ok p ∧
    p.ExportsKeepNames [⟨0⟩] ((planMangle [⟨0⟩] {}).value p) := by
  have hbuild := Program.build_singleton exportedTwice
  refine ⟨_, hbuild, exportsKeepNames_planMangle hbuild (fun f hf => ?_) {}⟩
  rw [Program.fileIds_of_build hbuild, List.mem_singleton.mp hf]
  decide

end Moniker
