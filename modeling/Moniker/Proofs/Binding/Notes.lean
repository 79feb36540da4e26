/-
# What import and export statements note

A visit below `r` notes what name nodes declare, and which names stand in export
clauses for something of their own module.  Such notes are never lost, and elsewhere
in the tree they stay as they are (`Run.notes`).

An import statement notes a declaration for every name that it binds
(`visitImport_declares`).  An export clause notes for each of its specifiers either
an alias with the source of the statement, or a name of the module itself
(`ExportPart.recorded`).
-/

import Moniker.Proofs.Binding.Files

namespace Moniker
namespace Binding

variable {src : Source} {visit : Visit} {site : Site} {file : FileId} {r r' m n a : NodeId}
  {c : Option ScopeId} {sc : ScopeId} {p q : Program} {st st' : State}

/-! ### Notes -/

/-- What a visit below `r` leaves of the notes on name nodes. -/
structure Notes (src : Source) (r : NodeId) (p q : Program) : Prop where
  declared : ∀ n, p.declared.contains n = true → q.declared.contains n = true
  specifiers : ∀ n, p.specifiers.contains n = true → q.specifiers.contains n = true
  outside : ∀ n, ¬ src.Below r n → q.declared[n]? = p.declared[n]?

namespace Notes

theorem of_eq (hd : q.declared = p.declared) (hs : q.specifiers = p.specifiers) : Notes src r p q :=
  ⟨fun _ h => hd ▸ h, fun _ h => hs ▸ h, fun _ _ => by rw [hd]⟩

theorem trans {p₁ p₂ p₃ : Program} (h₁ : Notes src r p₁ p₂) (h₂ : Notes src r p₂ p₃) :
    Notes src r p₁ p₃ where
  declared n h := h₂.declared n (h₁.declared n h)
  specifiers n h := h₂.specifiers n (h₁.specifiers n h)
  outside n h := (h₂.outside n h).trans (h₁.outside n h)

theorem within (hr : src.Below r r') (h : Notes src r' p q) : Notes src r p q :=
  { h with outside := fun n hn => h.outside n fun hb => hn (hr.trans hb) }

/-- One more name node is declared. -/
theorem of_insert {s : SymbolId} (hn : src.Below r n) (hd : q.declared = p.declared.insert n s)
    (hs : q.specifiers = p.specifiers) : Notes src r p q := by
  refine ⟨fun k hk => ?_, fun _ h => hs ▸ h, fun k hk => ?_⟩
  · rw [hd, Table.contains_insert, hk, Bool.or_true]
  · have hne : n ≠ k := fun h => hk (h ▸ hn)
    rw [hd, Table.getElem?_insert, if_neg (by simpa using hne)]

end Notes

theorem Change.notes (h : Change src file r p q) : Notes src r p q := by
  cases h with
  | markSpecifier n _ =>
    refine ⟨fun _ h => h, fun k hk => ?_, fun _ _ => rfl⟩
    change (p.specifiers.insert n).contains k = true
    rw [KeySet.contains_insert, hk, Bool.or_true]
  | alias_ _ _ _ _ hn => exact .of_insert hn rfl rfl
  | newMember _ _ _ _ _ _ hn => exact .of_insert hn rfl rfl
  | joinMember _ _ _ _ _ _ hn => exact .of_insert hn rfl rfl
  | join _ _ _ _ _ _ hn _ => exact .of_insert hn rfl rfl
  | import_ _ _ _ _ _ _ _ hn _ => exact .of_insert hn rfl rfl
  | _ => exact .of_eq rfl rfl

/-- **Notes are never lost, and stay as they are outside the subtree.** -/
theorem Run.notes (h : Run src file c r st st') : Notes src r st.2 st'.2 := by
  induction h with
  | refl => exact .of_eq rfl rfl
  | trans _ _ ih₁ ih₂ => exact ih₁.trans ih₂
  | within hr _ ih => exact ih.within hr
  | change h => exact h.notes
  | introduce _ _ _ _ _ _ hn _ => exact .of_insert hn rfl rfl
  | nested _ hsec _ ih => exact ih.within hsec.below

/-! ### Imports -/

/-- The name stands where an import statement binds it. -/
inductive ImportBinds (src : Source) (stmt : NodeId) : NodeId → Prop where
  | default (clause n : NodeId) :
    clause ∈ src.namedChildren stmt → src.kind clause = "import_clause" →
    n ∈ src.namedChildren clause → src.kind n = "identifier" → ImportBinds src stmt n
  | named (clause list spec name : NodeId) :
    clause ∈ src.namedChildren stmt → src.kind clause = "import_clause" →
    list ∈ src.namedChildren clause → src.kind list = "named_imports" →
    spec ∈ src.namedChildren list → src.kind spec = "import_specifier" →
    src.child? spec "name" = some name →
    ImportBinds src stmt ((src.child? spec "alias").getD name)
  | namespace_ (clause part n : NodeId) :
    clause ∈ src.namedChildren stmt → src.kind clause = "import_clause" →
    part ∈ src.namedChildren clause → src.kind part = "namespace_import" →
    src.firstOfKind? part ["identifier"] = some n → ImportBinds src stmt n
  | require (clause n : NodeId) :
    clause ∈ src.namedChildren stmt → src.kind clause = "import_require_clause" →
    src.firstOfKind? clause ["identifier"] = some n → ImportBinds src stmt n

theorem ImportBinds.exists_binding (h : ImportBinds src m n) :
    ∃ clause ∈ src.namedChildren m, ∃ b ∈ (importClause src clause).2, b.node = n := by
  have hpart : ∀ {clause part b}, src.kind clause = "import_clause" →
      part ∈ src.namedChildren clause → b ∈ clauseBindings src part →
      b ∈ (importClause src clause).2 := by
    intro clause part b hkind hpart hb
    simp only [importClause, hkind]
    exact List.mem_flatMap.mpr ⟨part, hpart, hb⟩
  cases h with
  | default clause n hclause hkind hn hid =>
    exact ⟨clause, hclause, _, hpart hkind hn (by simp only [clauseBindings, hid]; exact .head _), rfl⟩
  | named clause list spec name hclause hkind hlist hlkind hspec hskind hname =>
    refine ⟨clause, hclause,
      ⟨(src.child? spec "alias").getD name, unquote (src.text name), .importBinding⟩,
      hpart hkind hlist ?_, rfl⟩
    simp only [clauseBindings, hlkind]
    refine List.mem_filterMap.mpr ⟨spec, hspec, ?_⟩
    rw [if_pos (by simpa using hskind), hname]
    rfl
  | namespace_ clause part n hclause hkind hpart' hpkind hn =>
    refine ⟨clause, hclause, ⟨n, "*", .namespaceImport⟩, hpart hkind hpart' ?_, rfl⟩
    simp only [clauseBindings, hpkind, hn]
    exact .head _
  | require clause n hclause hkind hn =>
    refine ⟨clause, hclause, ?_⟩
    simp only [importClause, hkind, hn]
    exact ⟨_, .head _, rfl⟩

/-- An import binding is declared, and no declaration is lost. -/
theorem contains_declared_declareImport {traits : Traits} {specifier imported : String}
    {s : ScopeId} : (Bind.after (declareImport src site s m traits specifier imported) st).2.declared.contains n = true ↔
      m = n ∨ st.2.declared.contains n = true := by
  change (st.2.declared.insert m _).contains n = true ↔ _
  rw [Table.contains_insert, Bool.or_eq_true, beq_iff_eq]

/-- **An import statement declares every name that it binds.** -/
theorem visitImport_declares (h : ImportBinds src m n) :
    (Bind.after (visitImport src site m) st).2.declared.contains n = true := by
  obtain ⟨clause, hclause, b, hb, rfl⟩ := h.exists_binding
  let D : State → Prop := fun st => st.2.declared.contains b.node = true
  change D (Bind.after (List.foldlM _ _ _) (st.1, st.2))
  rw [Bind.after_foldlM_eq]
  refine foldl_of_mem (I := fun r : Import × State => D r.2) (J := fun _ => True) hclause (fun _ _ _ _ => trivial)
    (fun r _ => ?_) (fun other _ _ r _ hr => ?_) trivial
  · change D (Bind.after (List.mapM _ _) r.2)
    rw [Bind.after_mapM_eq]
    exact foldl_of_mem (I := D) (J := fun _ => True) hb (fun _ _ _ _ => trivial)
      (fun st _ => contains_declared_declareImport.mpr (.inl rfl))
      (fun _ _ _ st _ h => contains_declared_declareImport.mpr (.inr h)) trivial
  · change D (Bind.after (List.mapM _ _) r.2)
    rw [Bind.after_mapM_eq]
    exact foldl_keeps (I := D) (fun _ _ st h => contains_declared_declareImport.mpr (.inr h)) hr

/-! ### Export clauses -/

section Clauses

variable {source name : String} {spec : NodeId}

/-- The name node declares a symbol of this specifier. -/
def Aliases (source : String) (a : NodeId) (p : Program) : Prop :=
  ∃ s, p.declared[a]? = some s ∧ s.idx < p.symbols.size ∧ (p.symbol s).specifier = source

/-- What exporting under a specifier keeps. -/
structure Records (source : String) (p q : Program) : Prop where
  aliases : ∀ a, Aliases source a p → Aliases source a q
  specifiers : ∀ n, p.specifiers.contains n = true → q.specifiers.contains n = true

/-- A specifier of an export clause is noted: as an alias, or as a name of the module
itself. -/
def Recorded (src : Source) (source : String) (spec : NodeId) (p : Program) : Prop :=
  ∀ name, src.child? spec "name" = some name →
    Aliases source ((src.child? spec "alias").getD name) p ∨
      ((src.child? spec "alias").getD name = name ∧ source = "" ∧
        p.specifiers.contains name = true)

theorem Records.refl (source : String) (p : Program) : Records source p p :=
  ⟨fun _ h => h, fun _ h => h⟩

theorem Records.trans {p₁ p₂ p₃ : Program} (h₁ : Records source p₁ p₂) (h₂ : Records source p₂ p₃) :
    Records source p₁ p₃ :=
  ⟨fun a h => h₂.aliases a (h₁.aliases a h), fun n h => h₂.specifiers n (h₁.specifiers n h)⟩

theorem Recorded.mono (h : Recorded src source spec p) (hr : Records source p q) :
    Recorded src source spec q := fun name hname =>
  (h name hname).imp (hr.aliases _) fun ⟨heq, hsource, hn⟩ => ⟨heq, hsource, hr.specifiers _ hn⟩

theorem symbol_addSymbol_of_lt {s : SymbolId} (sym : Symbol) (h : s.idx < p.symbols.size) :
    s.idx < (p.addSymbol sym).symbols.size ∧ (p.addSymbol sym).symbol s = p.symbol s :=
  ⟨h.trans (lt_of_lt_of_eq (Nat.lt_succ_self _) Program.symbols_size_addSymbol.symm),
    (Program.symbol_addSymbol s).trans (if_neg h.ne)⟩

/-- Exporting an alias notes it. -/
theorem exportAlias_records {sym : Symbol} (hsym : sym.specifier = source)
    (hst : st' = Bind.after (do
      let id ← Build.newSymbol sym
      Build.setDeclared n id
      export_ site name id) st) : Aliases source n st'.2 ∧ Records source st.2 st'.2 := by
  let p := st.2
  let q := (p.addSymbol sym).markDeclared n ⟨p.symbols.size⟩
  have hnew : Aliases source n q := by
    refine ⟨⟨p.symbols.size⟩, ?_, ?_, ?_⟩
    · rw [Program.declared_markDeclared, if_pos rfl]
    · exact lt_of_lt_of_eq (Nat.lt_succ_self _) Program.symbols_size_addSymbol.symm
    · exact (congrArg Symbol.specifier ((Program.symbol_addSymbol _).trans (if_pos rfl))).trans hsym
  have hold : ∀ a, Aliases source a p → Aliases source a q := by
    rintro a ⟨s, hs, hlt, hspec⟩
    by_cases hna : n = a
    · exact hna ▸ hnew
    · obtain ⟨hlt, hsame⟩ := symbol_addSymbol_of_lt sym hlt
      refine ⟨s, ?_, hlt, (congrArg Symbol.specifier hsame).trans hspec⟩
      rw [Program.declared_markDeclared, if_neg hna]
      exact hs
  subst hst
  exact ⟨hnew, hold, fun _ h => h⟩

/-- Exporting a name of the module itself notes it. -/
theorem exportOwn_records {sym : Symbol} (hst : st' = Bind.after (do
      let id ← Build.newSymbol sym
      modifyThe Program fun p => p.markSpecifier n
      export_ site name id) st) :
    st'.2.specifiers.contains n = true ∧ Records source st.2 st'.2 := by
  subst hst
  refine ⟨Std.TreeSet.contains_insert_self, fun a ⟨s, hs, hlt, hspec⟩ => ?_, fun k hk => ?_⟩
  · obtain ⟨hlt, hsame⟩ := symbol_addSymbol_of_lt sym hlt
    exact ⟨s, hs, hlt, (congrArg Symbol.specifier hsame).trans hspec⟩
  · change (st.2.specifiers.insert n).contains k = true
    rw [KeySet.contains_insert, hk, Bool.or_true]

/-- **A specifier is noted, and other notes are kept.** -/
theorem exportSpecifier_records (hst : st' = Bind.after (exportSpecifier src site source sc spec) st) :
    Recorded src source spec st'.2 ∧ Records source st.2 st'.2 := by
  unfold exportSpecifier at hst
  cases hname : src.child? spec "name" with
  | none =>
    rw [hname] at hst
    exact ⟨fun _ h => (nomatch hname.symm.trans h), hst ▸ .refl _ _⟩
  | some name =>
    have heq : ∀ {name'}, src.child? spec "name" = some name' → name' = name := fun h =>
      Option.some.inj (h.symm.trans hname)
    rw [hname] at hst
    dsimp only at hst
    by_cases hown : ((src.child? spec "alias").getD name != name || source != "") = true
    · simp only [hown, if_true] at hst
      refine (exportAlias_records rfl hst).imp_left fun halias name' hname' => .inl ?_
      rw [heq hname']
      exact halias
    · simp only [hown, if_false, Bool.false_eq_true] at hst
      have hown : (src.child? spec "alias").getD name = name ∧ source = "" := by simpa using hown
      refine (exportOwn_records hst).imp_left fun hn name' hname' => .inr ?_
      rw [heq hname']
      exact ⟨hown.1, hown.2, hn⟩

theorem exportNamespace_records :
    Records source st.2 (Bind.after (exportNamespace src site source n) st).2 := by
  unfold exportNamespace
  split
  · exact .refl _ _
  · dsimp only
    split
    · exact And.right (exportAlias_records rfl rfl)
    · exact .refl _ _

/-- Another module that is exported as one name is noted. -/
theorem exportNamespace_aliases (hsource : source ≠ "")
    (ha : src.firstOfKind? n ["identifier", "string"] = some a) :
    Aliases source a (Bind.after (exportNamespace src site source n) st).2 := by
  unfold exportNamespace
  rw [ha]
  simp only [bne_iff_ne, ne_eq, hsource, not_false_eq_true, if_true]
  exact And.left (exportAlias_records rfl rfl)

/-- The source of an export statement, empty for none. -/
def exportSource (src : Source) (n : NodeId) : String :=
  ((src.child? n "source").map fun x => unquote (src.text x)).getD ""

/-- The visit of a part of an export statement. -/
def exportPart (src : Source) (site : Site) (source : String) (sc : ScopeId) (c : NodeId) :
    Bind Unit :=
  match src.kind c with
  | "export_clause" =>
    ((src.namedChildren c).filter fun spec => src.kind spec == "export_specifier").forM
      (exportSpecifier src site source sc)
  | "namespace_export" => exportNamespace src site source c
  | _ => pure ()

theorem exportPart_records :
    Records source st.2 (Bind.after (exportPart src site source sc n) st).2 := by
  unfold exportPart
  split
  · refine Bind.after_forM (I := fun st' => Records source st.2 st'.2) (fun c _ st' h => ?_) (.refl _ _)
    exact h.trans (exportSpecifier_records rfl).2
  · exact exportNamespace_records
  · exact .refl _ _

/-- An export statement without a declaration or value, of which `c` is a part that
exports. -/
structure ExportPart (src : Source) (n c : NodeId) : Prop where
  kind : src.kind n = "export_statement"
  declaration : src.child? n "declaration" = none
  value : src.child? n "value" = none
  mem : c ∈ src.namedChildren n
  exports : src.kind c = "export_clause" ∨
    (src.kind c = "namespace_export" ∧ exportSource src n ≠ "")

/-- Such a statement is visited part by part. -/
theorem ExportPart.after_visitExport (h : ExportPart src n a) :
    Bind.after (visitExport src visit site n sc) st =
      (src.namedChildren n).foldl
        (fun st c => Bind.after (exportPart src site (exportSource src n) sc c) st) st := by
  have hfirst : ∀ kinds, src.kind a ∈ kinds → (src.firstOfKind? n kinds).isNone = false := by
    intro kinds hkind
    obtain ⟨hmem, hcontent⟩ := List.mem_filter.mp h.mem
    rw [Option.isNone_eq_false_iff, Source.firstOfKind?, List.find?_isSome]
    exact ⟨a, hmem, by simpa [hcontent, Source.isKind] using hkind⟩
  have hboth : src.kind a ∈ ["export_clause", "namespace_export"] := by
    rcases h.exports with hk | ⟨hk, _⟩ <;> rw [hk] <;> decide
  have hlocal : (exportSource src n == "" && (src.firstOfKind? n ["export_clause"]).isNone) = false := by
    rcases h.exports with hk | ⟨_, hsource⟩
    · rw [hfirst _ (hk ▸ List.mem_cons_self), Bool.and_false]
    · rw [beq_eq_false_iff_ne.mpr hsource, Bool.false_and]
  rw [← Bind.after_forM_eq]
  unfold visitExport
  rw [h.declaration, h.value]
  change Bind.after (do
    (src.namedChildren n).forM (exportPart src site (exportSource src n) sc)
    if (exportSource src n != "" && (src.firstOfKind? n ["export_clause", "namespace_export"]).isNone
        && src.hasToken n "*") = true then
      Build.updateModule site.module fun m => { m with stars := m.stars ++ [exportSource src n] }
    if (exportSource src n == "" && (src.firstOfKind? n ["export_clause"]).isNone) = true then
      visitChildren src visit site n sc) st = _
  simp only [hfirst _ hboth, hlocal, Bool.and_false, Bool.false_and, Bool.false_eq_true, if_false]
  rfl

/-- **An export clause notes all its specifiers.** -/
theorem ExportPart.recorded (h : ExportPart src n a) (hkind : src.kind a = "export_clause")
    (hspec : spec ∈ src.namedChildren a) (hskind : src.kind spec = "export_specifier") :
    Recorded src (exportSource src n) spec (Bind.after (visitExport src visit site n sc) st).2 := by
  let I : State → Prop := fun st => Recorded src (exportSource src n) spec st.2
  have hspec : spec ∈ (src.namedChildren a).filter fun c => src.kind c == "export_specifier" :=
    List.mem_filter.mpr ⟨hspec, beq_iff_eq.mpr hskind⟩
  rw [h.after_visitExport]
  refine foldl_of_mem (I := I) (J := fun _ => True) h.mem (fun _ _ _ _ => trivial) (fun st _ => ?_)
    (fun _ _ _ _ _ hst => hst.mono exportPart_records) trivial
  simp only [I, exportPart, hkind, Bind.after_forM_eq]
  exact foldl_of_mem (I := I) (J := fun _ => True) hspec (fun _ _ _ _ => trivial)
    (fun _ _ => (exportSpecifier_records rfl).1)
    (fun _ _ _ _ _ hst => hst.mono (exportSpecifier_records rfl).2) trivial

/-- **A namespace export notes its name.** -/
theorem ExportPart.aliases {id : NodeId} (h : ExportPart src n a)
    (hkind : src.kind a = "namespace_export") (hsource : exportSource src n ≠ "")
    (hid : src.firstOfKind? a ["identifier", "string"] = some id) :
    Aliases (exportSource src n) id (Bind.after (visitExport src visit site n sc) st).2 := by
  rw [h.after_visitExport]
  refine foldl_of_mem (I := fun st : State => Aliases (exportSource src n) id st.2)
    (J := fun _ => True) h.mem (fun _ _ _ _ => trivial) (fun st _ => ?_)
    (fun _ _ _ _ _ hst => exportPart_records.aliases _ hst) trivial
  simp only [exportPart, hkind]
  exact exportNamespace_aliases hsource hid

/-- Visits elsewhere keep an alias. -/
theorem Aliases.run (h : Aliases source a st.2) (hrun : Run src file c r st st')
    (ha : ¬ src.Below r a) : Aliases source a st'.2 := by
  obtain ⟨s, hs, hlt, hspec⟩ := h
  refine ⟨s, ?_, hlt.trans_le hrun.grows.symbols_le, ?_⟩
  · rw [hrun.notes.outside a ha]
    exact hs
  · rw [(hrun.grows.symbol s hlt).specifier]
    exact hspec

/-- Visits elsewhere keep the notes on a specifier. -/
theorem Recorded.run (h : Recorded src source spec st.2) (hrun : Run src file c r st st')
    (hspec : ∀ x, src.Below spec x → ¬ src.Below r x) : Recorded src source spec st'.2 := by
  intro name hname
  have hdecl : src.Below spec ((src.child? spec "alias").getD name) := by
    cases halias : src.child? spec "alias" with
    | none => exact Source.Below.refl.child? hname
    | some a => exact Source.Below.refl.child? halias
  exact (h name hname).imp (fun ha => ha.run hrun (hspec _ hdecl)) fun ⟨heq, hsource, hn⟩ =>
    ⟨heq, hsource, hrun.notes.specifiers _ hn⟩

end Clauses

/-! ### Statements at the top of a file -/

theorem visitTop_import {f : FileId} (hkind : src.kind n = "import_statement") :
    visitTop src f sc n = visitImport src (Site.ofFile src f) n := by
  change visitNode src (visitWithin src src.nodes.size) (Site.ofFile src f) n sc = _
  unfold visitNode
  simp only [hkind]

theorem visitTop_export {f : FileId} (hkind : src.kind n = "export_statement") :
    visitTop src f sc n =
      visitExport src (visitWithin src src.nodes.size) (Site.ofFile src f) n sc := by
  change visitNode src (visitWithin src src.nodes.size) (Site.ofFile src f) n sc = _
  unfold visitNode
  simp only [hkind]

end Binding
end Moniker
