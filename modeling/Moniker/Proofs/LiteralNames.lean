/-
# What is renamed is written as a name

A member whose name is a string or a number is quoted, one whose name is computed is left out
of its class or interface, and a member of an object literal keeps its name whatever that is.
So all declarations of a renamed symbol are names in a scope, or names of members that are
written as such (`ManglePlan.place_of_renames`).

In a scope most places are read for names only.  Two are not: what stands under the name of a
declaration, where the strings of modules are sorted out, and the bare parameter of a function
(`Source.TakenAsName`).  The language has no literals there, but a tree may.

The computed names of enum members are neither left out nor quoted, and are renamed
(`ManglePlan.WrittenAsNames`).
-/

import Moniker.Proofs.DeclarationSites
import Moniker.Proofs.Plans

namespace Moniker

open Program (Later)

namespace Source

variable {src : Source} {traits : Traits} {n : NodeId}

/-- The kinds of nodes that spell a name out as a value. -/
def literalKinds : List String := ["string", "number", "computed_property_name"]

/-- The node is declared in a scope without a look at what kind of node it is. -/
inductive TakenAsName (src : Source) (traits : Traits) (n : NodeId) : Prop where
  | name (outer : NodeId) : src.kind outer ∈ namingKinds → src.child? outer "name" = some n →
    traits.has (namingTrait (src.kind outer)) = true → TakenAsName src traits n
  | namespace_ (outer : NodeId) : src.kind outer ∈ namespaceKinds →
    src.child? outer "name" = some n → src.kind n ≠ "string" →
    traits.has .namespaceDecl = true → TakenAsName src traits n
  | parameter (outer : NodeId) : src.kind outer ∈ functionKinds → n ∈ src.children outer →
    src.field n = "parameter" → traits.has .variableDecl = true → TakenAsName src traits n

/-- Dotted names, inferred types and patterns are read for identifiers. -/
theorem Lexical.takenAsName (h : src.Lexical traits n) (hkind : src.kind n ∈ literalKinds) :
    src.TakenAsName traits n := by
  cases h with
  | name outer _ houter hname htrait => exact .name outer houter hname htrait
  | namespace_ outer _ houter hname hstring htrait =>
    exact .namespace_ outer houter hname hstring htrait
  | head _ _ _ _ hname =>
    have hapart : ∀ k ∈ literalKinds, k ∉ ["identifier", "nested_identifier"] := by decide
    exact absurd hname (hapart _ hkind)
  | inferred _ _ _ _ hname =>
    have hapart : ∀ k ∈ literalKinds, k ≠ "type_identifier" := by decide
    exact absurd hname (hapart _ hkind)
  | parameter outer _ houter hmem hfield htrait => exact .parameter outer houter hmem hfield htrait
  | pattern _ _ hname =>
    have hapart : ∀ k ∈ literalKinds, k ∉ bindingNames := by decide
    exact absurd hname (hapart _ hkind)

end Source

namespace ManglePlan

variable {p : Program} {plan : ManglePlan} {s : SymbolId} {src : Source} {sel : List FileId}
  {opts : MangleOptions} {n : NodeId}

/-- Literals and computed expressions are no declarations of what is renamed, but for what is
taken as a name in a scope whatever it is, and the computed names of enum members. -/
structure WrittenAsNames (p : Program) (plan : ManglePlan) : Prop where
  literal : ∀ s, plan.Renames s → ∀ n ∈ (p.symbol s).decls,
    p.source.kind n = "string" ∨ p.source.kind n = "number" →
      p.source.TakenAsName (p.symbol s).traits n
  computed : ∀ s, plan.Renames s → ∀ n ∈ (p.symbol s).decls,
    p.source.kind n = "computed_property_name" →
      p.source.TakenAsName (p.symbol s).traits n ∨
        ∃ outer, p.source.kind outer = "enum_assignment" ∧ p.source.child? outer "name" = some n

/-- **What is renamed was declared by the file itself,** and is no alias, no member with a
quoted name and no member of an object literal. -/
theorem declared_of_mem_renamings {r : Renaming} (hs : src.LaidOut)
    (hsel : ∀ f ∈ sel, f ∈ src.fileIds)
    (hr : r ∈ ((planMangle sel opts).value (Program.ofSource src)).renamings) :
    (Program.bound src).declared[r.decl]? = some r.symbol ∧
      ((Program.ofSource src).symbol r.symbol).isAlias = false ∧
      ((Program.ofSource src).symbol r.symbol).has .quoted = false ∧
      ¬ (Program.ofSource src).IsLiteralMember r.symbol := by
  have hsource := Program.source_ofSource hs
  obtain ⟨rec, hsymbol, hnode, f, hf, q, hq, hrec, q', hqq', hplain⟩ :=
    exists_entry_of_mem_renamings (Program.wellScoped_ofSource hs) (hsource.symm ▸ hs)
      (hsource.symm ▸ hsel) hr
  rw [← hsymbol, ← hnode]
  obtain ⟨-, hdecl, -⟩ := Program.mem_scopedSymbols hrec
  have hext : Program.Extends src (Program.ofSource src) q := by
    rwa [Later, hsource] at hq
  have hext' : Program.Extends src q q' := by
    rwa [Later, Program.Extends.source_eq hq, hsource] at hqq'
  have hpublic : ¬ ((q'.symbol rec.symbol).isAlias = true ∨
      (q'.symbol rec.symbol).has .quoted = true ∨
      ∃ o, rec.owner = some o ∧ (q'.symbol o).isObjectLiteral = true) := by
    intro hkeeps
    obtain ⟨reason, hreason, hvis⟩ := Program.plainReason?_public opts.reserved rec
      (hkeeps.imp_right fun h => .inr (.inr (h.imp_right .inr)))
    exact hplain reason hreason hvis
  have hliteral : ¬ q.IsLiteralMember rec.symbol := by
    rintro ⟨o, howner, ho⟩
    have howned := (Program.owner_of_mem_scopedSymbols hrec).trans howner
    exact hpublic (.inr (.inr ⟨o, howned, hext'.owners_kept.2 o ho⟩))
  have hbound : (Program.bound src).declared[rec.decl]? = some rec.symbol := by
    rw [← Program.declared_linked]
    exact (((Program.extends_linked src).trans hext).declared_literal hdecl).resolve_right
      fun h => hliteral h.2
  have hlt : rec.symbol.idx < (Program.ofSource src).symbols.size := by
    have hlt := ((Program.declSound_bound hs).declared hbound).lt
    rw [← Program.symbols_linked] at hlt
    exact hlt.trans_le (Program.extends_linked src).scopes_kept.1
  have htraits := ((hext.trans hext').grows.symbol rec.symbol hlt).traits
  refine ⟨hbound, ?_, ?_, fun h => hliteral (h.extends hext hlt)⟩
  · exact Bool.eq_false_iff.mpr fun halias => hpublic (.inl (htraits.meets halias))
  · exact Bool.eq_false_iff.mpr fun hquoted => hpublic (.inr (.inl (htraits.has hquoted)))

theorem declared_of_renames (hs : src.LaidOut) (hsel : ∀ f ∈ sel, f ∈ src.fileIds)
    (h : ((planMangle sel opts).value (Program.ofSource src)).Renames s) :
    (∃ d : NodeId, (Program.bound src).declared[d]? = some s) ∧
      ((Program.ofSource src).symbol s).isAlias = false ∧
      ((Program.ofSource src).symbol s).has .quoted = false ∧
      ¬ (Program.ofSource src).IsLiteralMember s := by
  obtain ⟨r, hr, rfl⟩ := h
  exact (declared_of_mem_renamings hs hsel hr).imp_left fun hd => ⟨r.decl, hd⟩

/-- **A renamed symbol is declared by names in a scope, or by names of members** that are no
literals. -/
theorem place_of_renames (hs : src.LaidOut) (hsel : ∀ f ∈ sel, f ∈ src.fileIds)
    (h : ((planMangle sel opts).value (Program.ofSource src)).Renames s)
    (hn : n ∈ ((Program.ofSource src).symbol s).decls) :
    src.Lexical ((Program.ofSource src).symbol s).traits n ∨
      (src.MemberName n ∧ Binding.isLiteralName src n = false) := by
  obtain ⟨⟨d, hd⟩, halias, hquoted, hliteral⟩ := declared_of_renames hs hsel h
  have hsited := (Program.allSited_bound hs).declared hd
  have hsym : (Program.linked src).symbol s = (Program.bound src).symbol s := by
    rw [Program.symbol, Program.symbol, Program.symbols_linked]
  have hlt : s.idx < (Program.linked src).symbols.size := by
    rw [Program.symbols_linked]
    exact hsited.lt
  have hold : n ∈ ((Program.bound src).symbol s).decls := by
    rw [← hsym]
    exact ((Program.extends_linked src).decls_kept hlt).resolve_right hliteral ▸ hn
  have hgrows := (Program.grows_ofSource src).symbol s hsited.lt
  cases (hsited.entitled n hold).grows hgrows with
  | lexical _ place => exact .inl place
  | member place quoted =>
    exact .inr ⟨place, Bool.eq_false_iff.mpr fun h => Bool.false_ne_true (hquoted.symm.trans (quoted h))⟩
  | alias_ _ isAlias => exact absurd (halias.symm.trans isAlias) Bool.false_ne_true

end ManglePlan

/-- Of members, only those of enums are declared under computed names. -/
theorem Source.MemberName.assigned_of_computed {src : Source} {n : NodeId} (h : src.MemberName n)
    (hkind : src.kind n = "computed_property_name") :
    ∃ outer, src.kind outer = "enum_assignment" ∧ src.child? outer "name" = some n := by
  cases h with
  | member _ _ _ _ hne | method _ _ _ _ _ _ _ _ _ hne => exact absurd hkind hne
  | enumerator outer body _ _ _ _ hname => simp [hkind] at hname
  | assigned outer _ houter hname => exact ⟨outer, houter, hname⟩

/-- **Quoted names are not renamed, and computed ones only in enums.** -/
theorem writtenAsNames_planMangle {files : List ParsedFile} {p : Program}
    (h : Program.build files = .ok p) {sel : List FileId} (hsel : ∀ f ∈ sel, f ∈ p.source.fileIds)
    (opts : MangleOptions) : ((planMangle sel opts).value p).WrittenAsNames p := by
  obtain ⟨src, rfl, hs⟩ := Program.laidOut_of_build h
  have hsource := Program.source_ofSource hs
  rw [hsource] at hsel
  refine ⟨fun s hr n hn hkind => ?_, fun s hr n hn hkind => ?_⟩
  · rw [hsource] at hkind ⊢
    have hliteral : Binding.isLiteralName src n = true := by
      rcases hkind with hkind | hkind <;> simp [Binding.isLiteralName, Source.isKind, hkind]
    have hplace := (ManglePlan.place_of_renames hs hsel hr hn).resolve_right fun hother =>
      Bool.false_ne_true (hother.2.symm.trans hliteral)
    refine hplace.takenAsName ?_
    rcases hkind with hkind | hkind <;> rw [hkind] <;> decide
  · rw [hsource] at hkind ⊢
    refine (ManglePlan.place_of_renames hs hsel hr hn).imp (fun hplace => ?_) fun hother =>
      hother.1.assigned_of_computed hkind
    refine hplace.takenAsName ?_
    rw [hkind]
    decide

/-- An interface with a member in quotes beside one that is not. -/
def halfQuoted : ParsedFile where
  path := "main.ts"
  contents := "interface Box \x7b \"size\": 1; width: 2 \x7d\nexport \x7b\x7d;".toUTF8
  tree :=
    .node "program" "" true 0 48 [
      .node "interface_declaration" "" true 0 37 [
        .node "type_identifier" "name" true 10 13 [],
        .node "interface_body" "body" true 14 37 [
          .node "property_signature" "" true 16 25 [
            .node "string" "name" true 16 22 [],
            .node "type_annotation" "type" true 22 25 [
              .node "literal_type" "" true 24 25 [.node "number" "" true 24 25 []]]],
          .node "property_signature" "" true 27 35 [
            .node "property_identifier" "name" true 27 32 [],
            .node "type_annotation" "type" true 32 35 [
              .node "literal_type" "" true 34 35 [.node "number" "" true 34 35 []]]]]],
      .node "export_statement" "" true 38 48 [.node "export_clause" "" true 45 47 []]]

theorem writtenAsNames_planMangle_halfQuoted : ∃ p, Program.build [halfQuoted] = .ok p ∧
    ((planMangle [⟨0⟩] {}).value p).WrittenAsNames p := by
  have hbuild := Program.build_singleton halfQuoted
  refine ⟨_, hbuild, writtenAsNames_planMangle hbuild (fun f hf => ?_) {}⟩
  rw [Program.fileIds_of_build hbuild, List.mem_singleton.mp hf]
  decide

end Moniker
