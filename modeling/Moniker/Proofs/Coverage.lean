/-
# Which names a program knows about

A name is `Indexed` if it declares something, if it is a reference, or if it is
recorded as unresolved.  Apart from declarations these are the names that linking
gets to and that do not stand in one of the places listed by `LeftOut`
(`indexed_ofSource`).

Two of these places are names in use: a shorthand name in a pattern that declares
nothing, as in an assignment, and the first part of a name with several dots.
-/

import Moniker.Proofs.Binding.Notes
import Moniker.Proofs.Links

namespace Moniker
namespace Program

open Binding (topNodes ImportBinds ExportPart Recorded Aliases exportSource)
open References (Linked Uses Reached valueKinds typeKind isValueUse isTypeUse startsUpper)

variable {src : Source} {p q : Program} {f : FileId} {m n stmt part spec a : NodeId}

/-- What the name stands for is known, or it is known that nothing declares it. -/
def Indexed (p : Program) (n : NodeId) : Prop := p.declared.contains n = true ∨ Linked p n

/-- A shorthand name in a pattern. -/
def shorthandPattern : String := "shorthand_property_identifier_pattern"

/-- The kinds of lexical names. -/
def nameKinds : List String := shorthandPattern :: typeKind :: valueKinds

/-- The parts of an import statement that bind names. -/
def importKinds : List String :=
  ["import_specifier", "import_clause", "namespace_import", "import_require_clause"]

/-- The tags of JSX. -/
def tagKinds : List String :=
  ["jsx_opening_element", "jsx_closing_element", "jsx_self_closing_element"]

/-- The name in an export clause names something of this module. -/
def ExportsOwn (p : Program) (n m : NodeId) : Prop :=
  p.specifiers.contains n = true ∨ (p.source.field n = "name" ∧
    ∃ a s, p.source.child? m "alias" = some a ∧ p.declared[a]? = some s ∧
      (p.symbol s).specifier = "")

/-- The places in which a name `n` with the parent `m` is not looked up. -/
inductive LeftOut (p : Program) (n : NodeId) : Prop where
  | pattern : p.source.kind n = shorthandPattern → LeftOut p n
  | root : p.source.kind n ∈ valueKinds → p.source.parent n = none → LeftOut p n
  | import_ (m : NodeId) :
    p.source.kind n ∈ valueKinds → p.source.parent n = some m →
    p.source.kind m ∈ importKinds → LeftOut p n
  | namespaceExport (m : NodeId) :
    p.source.kind n ∈ valueKinds → p.source.parent n = some m →
    p.source.kind m = "namespace_export" → LeftOut p n
  | reexport (m : NodeId) :
    p.source.kind n ∈ valueKinds → p.source.parent n = some m →
    p.source.kind m = "export_specifier" → ¬ ExportsOwn p n m → LeftOut p n
  | dotted (m : NodeId) :
    p.source.kind n ∈ valueKinds → p.source.parent n = some m →
    p.source.kind m = "nested_identifier" → LeftOut p n
  | metaProperty (m : NodeId) :
    p.source.kind n ∈ valueKinds → p.source.parent n = some m →
    p.source.kind m = "meta_property" → LeftOut p n
  | tag (m : NodeId) :
    p.source.kind n ∈ valueKinds → p.source.parent n = some m → p.source.kind m ∈ tagKinds →
    ¬ (p.source.field n = "name" ∧ startsUpper (p.source.text n) = true) → LeftOut p n
  | member (m : NodeId) :
    p.source.kind n = typeKind → p.source.parent n = some m →
    p.source.kind m = "nested_type_identifier" → p.source.field n = "name" → LeftOut p n

theorem leftOut_of_value (hn : p.source.kind n ∈ valueKinds) (hm : p.source.parent n = some m) :
    LeftOut p n ↔ p.source.kind m ∈ importKinds ∨ p.source.kind m = "namespace_export" ∨
      (p.source.kind m = "export_specifier" ∧ ¬ ExportsOwn p n m) ∨
      p.source.kind m = "nested_identifier" ∨ p.source.kind m = "meta_property" ∨
      (p.source.kind m ∈ tagKinds ∧
        ¬ (p.source.field n = "name" ∧ startsUpper (p.source.text n) = true)) := by
  have heq : ∀ {m'}, p.source.parent n = some m' → m' = m := fun h =>
    Option.some.inj (h.symm.trans hm)
  constructor
  · rintro (h | ⟨_, h⟩ | ⟨m', _, h, hk⟩ | ⟨m', _, h, hk⟩ | ⟨m', _, h, hk, hown⟩ | ⟨m', _, h, hk⟩ |
      ⟨m', _, h, hk⟩ | ⟨m', _, h, hk, hup⟩ | ⟨m', h, _⟩)
    · rw [h] at hn
      exact absurd hn (by decide)
    · exact nomatch h.symm.trans hm
    · exact .inl (heq h ▸ hk)
    · exact .inr (.inl (heq h ▸ hk))
    · obtain rfl := heq h
      exact .inr (.inr (.inl ⟨hk, hown⟩))
    · exact .inr (.inr (.inr (.inl (heq h ▸ hk))))
    · exact .inr (.inr (.inr (.inr (.inl (heq h ▸ hk)))))
    · exact .inr (.inr (.inr (.inr (.inr ⟨heq h ▸ hk, hup⟩))))
    · rw [h] at hn
      exact absurd hn (by decide)
  · rintro (hk | hk | ⟨hk, hown⟩ | hk | hk | ⟨hk, hup⟩)
    · exact .import_ m hn hm hk
    · exact .namespaceExport m hn hm hk
    · exact .reexport m hn hm hk hown
    · exact .dotted m hn hm hk
    · exact .metaProperty m hn hm hk
    · exact .tag m hn hm hk hup

theorem exportsOwn_iff :
    (p.specifiers.contains n || (p.source.field n == "name" &&
      match (p.source.child? m "alias").bind fun a => p.declared[a]? with
      | some s => (p.symbol s).specifier == ""
      | none => false)) = true ↔ ExportsOwn p n m := by
  rw [Bool.or_eq_true, Bool.and_eq_true, beq_iff_eq]
  refine or_congr_right (and_congr_right fun _ => ⟨fun h => ?_, ?_⟩)
  · split at h
    · next s hs =>
      obtain ⟨a, ha, hs⟩ := Option.bind_eq_some_iff.mp hs
      exact ⟨a, s, ha, hs, beq_iff_eq.mp h⟩
    · exact absurd h Bool.false_ne_true
  · rintro ⟨a, s, ha, hs, hspec⟩
    rw [ha, Option.bind_some, hs]
    exact beq_iff_eq.mpr hspec

/-- A value name that declares nothing is used unless it is left out. -/
theorem isValueUse_iff (hn : p.source.kind n ∈ valueKinds) (hd : p.declared.contains n = false) :
    isValueUse p n = true ↔ ¬ LeftOut p n := by
  unfold isValueUse
  dsimp only
  split
  · next hm => exact iff_of_false Bool.false_ne_true fun h => h (.root hn hm)
  · next m hm =>
    rw [leftOut_of_value hn hm]
    split
    · next hk =>
      refine exportsOwn_iff.trans ?_
      simp [hk, importKinds, tagKinds]
    iterate 7 next hk => simp [hk, importKinds]
    iterate 3 next hk => simp [hk, importKinds, tagKinds]
    · simp only [importKinds, tagKinds, List.mem_cons, List.not_mem_nil, or_false]
      simp_all

theorem leftOut_of_type (hn : p.source.kind n = typeKind) :
    LeftOut p n ↔ ∃ m, p.source.parent n = some m ∧
      p.source.kind m = "nested_type_identifier" ∧ p.source.field n = "name" := by
  constructor
  · intro h
    cases h with
    | pattern h => exact absurd (hn.symm.trans h) (by decide)
    | member m _ hm hk hf => exact ⟨m, hm, hk, hf⟩
    | root h _ | import_ _ h | namespaceExport _ h | reexport _ h | dotted _ h | metaProperty _ h
    | tag _ h =>
      rw [hn] at h
      exact absurd h (by decide)
  · rintro ⟨m, hm, hk, hf⟩
    exact .member m hn hm hk hf

/-- A type name that declares nothing is used unless it is left out. -/
theorem isTypeUse_iff (hn : p.source.kind n = typeKind) (hd : p.declared.contains n = false) :
    isTypeUse p n = true ↔ ¬ LeftOut p n := by
  rw [leftOut_of_type hn]
  unfold isTypeUse
  dsimp only
  split
  · next m hm => simp [hd, hm, imp_iff_not_or]
  · next hm => simp [hd, hm]

/-- **A name that declares nothing is used unless it is left out.** -/
theorem uses_iff (hd : p.declared.contains n = false) :
    Uses p n ↔ p.source.kind n ∈ nameKinds ∧ ¬ LeftOut p n := by
  constructor
  · rintro (⟨hn, huse⟩ | ⟨hn, huse⟩)
    · exact ⟨.tail _ (.tail _ hn), (isValueUse_iff hn hd).mp huse⟩
    · exact ⟨hn ▸ .tail _ (.head _), (isTypeUse_iff hn hd).mp huse⟩
  · rintro ⟨hn, hleft⟩
    rcases List.mem_cons.mp hn with hn | hn
    · exact absurd (.pattern hn) hleft
    · rcases List.mem_cons.mp hn with hn | hn
      · exact .inr ⟨hn, (isTypeUse_iff hn hd).mpr hleft⟩
      · exact .inl ⟨hn, (isValueUse_iff hn hd).mpr hleft⟩

theorem specifiers_ofSource : (ofSource src).specifiers = (bound src).specifiers := by
  rw [(extends_linked src).specifiers_eq]
  change (linked src).unlinked.specifiers = (bound src).unlinked.specifiers
  rw [unlinked_linked]

/-- Whether a name of an export clause names something of its module is known once
everything is declared. -/
theorem exportsOwn_ofSource (hs : src.LaidOut) (hkind : src.kind m = "export_specifier") :
    ExportsOwn (ofSource src) n m ↔ ExportsOwn (bound src) n m := by
  unfold ExportsOwn
  rw [specifiers_ofSource, source_ofSource hs, source_bound hs]
  refine or_congr_right (and_congr_right fun _ => exists_congr fun a => exists_congr fun s =>
    and_congr_right fun ha => ?_)
  have hparent := hs.parent_eq (List.mem_of_find?_eq_some ha)
  have ha : ¬ src.IsLiteralKey a := by
    intro h
    cases h with
    | shorthand object _ hobject hc _ =>
      rw [Option.some.inj ((hs.parent_eq hc).symm.trans hparent), hkind] at hobject
      exact absurd hobject (by decide)
    | pair object c _ _ _ hc ha | method object c _ _ _ hc ha =>
      have ha := List.mem_of_find?_eq_some ha
      rw [Option.some.inj ((hs.parent_eq ha).symm.trans hparent), hkind] at hc
      exact absurd hc (by decide)
  rw [declared_ofSource ha]
  refine and_congr_right fun hs' => ?_
  rw [(symbol_kept_ofSource ((filed_bound hs).declared hs').1).specifier]

theorem LeftOut.congr (hsrc : q.source = p.source)
    (hown : ∀ m, p.source.kind m = "export_specifier" → ExportsOwn q n m → ExportsOwn p n m)
    (h : LeftOut p n) : LeftOut q n := by
  cases h with
  | pattern hn => exact .pattern (hsrc ▸ hn)
  | root hn hm => exact .root (hsrc ▸ hn) (hsrc ▸ hm)
  | import_ m hn hm hk => exact .import_ m (hsrc ▸ hn) (hsrc ▸ hm) (hsrc ▸ hk)
  | namespaceExport m hn hm hk => exact .namespaceExport m (hsrc ▸ hn) (hsrc ▸ hm) (hsrc ▸ hk)
  | reexport m hn hm hk hno =>
    exact .reexport m (hsrc ▸ hn) (hsrc ▸ hm) (hsrc ▸ hk) fun h => hno (hown m hk h)
  | dotted m hn hm hk => exact .dotted m (hsrc ▸ hn) (hsrc ▸ hm) (hsrc ▸ hk)
  | metaProperty m hn hm hk => exact .metaProperty m (hsrc ▸ hn) (hsrc ▸ hm) (hsrc ▸ hk)
  | tag m hn hm hk hup => exact .tag m (hsrc ▸ hn) (hsrc ▸ hm) (hsrc ▸ hk) (hsrc ▸ hup)
  | member m hn hm hk hf => exact .member m (hsrc ▸ hn) (hsrc ▸ hm) (hsrc ▸ hk) (hsrc ▸ hf)

theorem leftOut_ofSource (hs : src.LaidOut) : LeftOut (ofSource src) n ↔ LeftOut (bound src) n := by
  have hsrc : (ofSource src).source = (bound src).source :=
    (source_ofSource hs).trans (source_bound hs).symm
  have hown : ∀ m, src.kind m = "export_specifier" → _ := fun m => exportsOwn_ofSource (n := n) hs
  constructor
  · refine LeftOut.congr hsrc.symm fun m hk => ?_
    rw [source_ofSource hs] at hk
    exact (hown m hk).mpr
  · refine LeftOut.congr hsrc fun m hk => ?_
    rw [source_bound hs] at hk
    exact (hown m hk).mp

theorem linked_ofSource : Linked (ofSource src) n ↔ Linked (linked src) n := by
  unfold Linked
  rw [(extends_linked src).referenced_eq, (extends_linked src).unresolved_eq]

/-- **A name is indexed if it declares something or is in use,** as far as linking gets
to it. -/
theorem indexed_ofSource (hs : src.LaidOut) :
    Indexed (ofSource src) n ↔ (ofSource src).declared.contains n = true ∨
      (Reached src n ∧ src.kind n ∈ nameKinds ∧ ¬ LeftOut (ofSource src) n) := by
  cases hd : (ofSource src).declared.contains n with
  | true => exact iff_of_true (.inl hd) (.inl rfl)
  | false =>
    have hbound : (bound src).declared.contains n = false := by
      by_contra h
      rw [contains_declared_ofSource (Bool.not_eq_false _ ▸ h)] at hd
      exact nomatch hd
    rw [Indexed, hd, linked_ofSource, References.linked_linked hs, uses_iff hbound, source_bound hs,
      leftOut_ofSource hs]

/-! ### Import and export statements -/

/-- Imports at the top of a file declare the names they bind. -/
theorem declared_of_importBinds (hs : src.LaidOut) (hf : f ∈ src.fileIds)
    (hstmt : stmt ∈ topNodes src f) (hkind : src.kind stmt = "import_statement")
    (h : ImportBinds src stmt n) : (ofSource src).declared.contains n = true := by
  refine contains_declared_ofSource (bound_of_top
    (I := fun p => p.declared.contains n = true) hs hf hstmt (fun st sc _ => ?_) ?_)
  · rw [Binding.visitTop_import hkind]
    exact Binding.visitImport_declares h
  · exact fun hrun _ hst => hrun.notes.declared n hst

theorem contains_of_aliases {source : String} (h : Aliases source a (bound src)) :
    (ofSource src).declared.contains a = true := by
  obtain ⟨s, hs, _⟩ := h
  refine contains_declared_ofSource ?_
  rw [Std.TreeMap.contains_eq_isSome_getElem?, hs]
  rfl

/-- The names of other modules exported at the top of a file are declared. -/
theorem declared_of_namespaceExport (hs : src.LaidOut) (hf : f ∈ src.fileIds)
    (hstmt : stmt ∈ topNodes src f) (h : ExportPart src stmt part)
    (hkind : src.kind part = "namespace_export")
    (ha : src.firstOfKind? part ["identifier", "string"] = some a) :
    (ofSource src).declared.contains a = true := by
  have hsource : exportSource src stmt ≠ "" := by
    rcases h.exports with hclause | ⟨_, hsource⟩
    · exact absurd (hclause.symm.trans hkind) (by decide)
    · exact hsource
  refine contains_of_aliases (bound_of_top
    (I := Aliases (exportSource src stmt) a) hs hf hstmt (fun st sc _ => ?_) ?_)
  · rw [Binding.visitTop_export h.kind]
    exact h.aliases hkind hsource ha
  · intro file r st st' hrun hout hst
    exact hst.run hrun (hout a ((Source.Below.refl.namedChild h.mem).firstOfKind? ha))

theorem recorded_bound (hs : src.LaidOut) (hf : f ∈ src.fileIds) (hstmt : stmt ∈ topNodes src f)
    (h : ExportPart src stmt part) (hkind : src.kind part = "export_clause")
    (hspec : spec ∈ src.namedChildren part) (hskind : src.kind spec = "export_specifier") :
    Recorded src (exportSource src stmt) spec (bound src) := by
  refine bound_of_top (I := Recorded src (exportSource src stmt) spec) hs hf hstmt
    (fun st sc _ => ?_) ?_
  · rw [Binding.visitTop_export h.kind]
    exact h.recorded hkind hspec hskind
  · intro file r st st' hrun hout hst
    refine hst.run hrun fun x hx => hout x (Source.Below.trans ?_ hx)
    exact (Source.Below.refl.namedChild h.mem).namedChild hspec

/-- A name that an export clause takes from its own module is indexed. -/
theorem indexed_of_recorded (hs : src.LaidOut) (h : Recorded src "" spec (bound src))
    (hskind : src.kind spec = "export_specifier") (hname : src.child? spec "name" = some n)
    (hn : src.kind n ∈ typeKind :: valueKinds) (hreached : Reached src n) :
    Indexed (ofSource src) n := by
  have hparent : src.parent n = some spec := hs.parent_eq (List.mem_of_find?_eq_some hname)
  have hsource := source_ofSource hs
  have hlinked : ExportsOwn (bound src) n spec → Indexed (ofSource src) n := by
    intro hown
    have hown := (exportsOwn_ofSource hs hskind).mpr hown
    refine (indexed_ofSource hs).mpr (.inr ⟨hreached, .tail _ hn, fun hleft => ?_⟩)
    rcases List.mem_cons.mp hn with htype | hvalue
    · obtain ⟨m, hm, hk, _⟩ := (leftOut_of_type (hsource.symm ▸ htype)).mp hleft
      rw [hsource, hparent] at hm
      rw [hsource, ← Option.some.inj hm, hskind] at hk
      exact absurd hk (by decide)
    · rw [leftOut_of_value (hsource.symm ▸ hvalue) (hsource.symm ▸ hparent), hsource, hskind] at hleft
      simp [importKinds, tagKinds, hown] at hleft
  rcases h n hname with haliases | ⟨_, _, hn⟩
  · cases halias : src.child? spec "alias" with
    | none =>
      rw [halias] at haliases
      exact .inl (contains_of_aliases haliases)
    | some a =>
      rw [halias] at haliases
      obtain ⟨s, hs', _, hspec⟩ := haliases
      refine hlinked (.inr ⟨?_, a, s, ?_, hs', hspec⟩)
      · rw [source_bound hs]
        exact Source.field_of_child? hname
      · rw [source_bound hs]
        exact halias
  · exact hlinked (.inl hn)

/-- Aliases of export clauses are declared. -/
theorem declared_of_recorded {source : String} (h : Recorded src source spec (bound src))
    (hname : src.child? spec "name" = some n) (ha : src.child? spec "alias" = some a) :
    (ofSource src).declared.contains a = true := by
  rcases h n hname with haliases | ⟨heq, _, _⟩
  · rw [ha] at haliases
    exact contains_of_aliases haliases
  · -- One child does not stand under two fields.
    rw [ha, Option.getD_some] at heq
    have hfield := Source.field_of_child? ha
    rw [heq, Source.field_of_child? hname] at hfield
    exact absurd hfield (by decide)

/-- **Which names a program indexes.**  Names in use are indexed wherever linking gets to
them and they are not left out; so are the names that imports at the top of a file bind,
the names under which other modules are exported there, and both names of a specifier
that exports a name of its own module. -/
structure IndexesNames (p : Program) : Prop where
  indexed : ∀ {n}, p.Indexed n ↔ p.declared.contains n = true ∨
    (Reached p.source n ∧ p.source.kind n ∈ nameKinds ∧ ¬ p.LeftOut n)
  imports : ∀ {f stmt n}, f ∈ p.source.fileIds → stmt ∈ topNodes p.source f →
    p.source.kind stmt = "import_statement" → ImportBinds p.source stmt n →
    p.declared.contains n = true
  namespaces : ∀ {f stmt part a}, f ∈ p.source.fileIds → stmt ∈ topNodes p.source f →
    ExportPart p.source stmt part → p.source.kind part = "namespace_export" →
    p.source.firstOfKind? part ["identifier", "string"] = some a → p.declared.contains a = true
  aliases : ∀ {f stmt part spec n a}, f ∈ p.source.fileIds → stmt ∈ topNodes p.source f →
    ExportPart p.source stmt part → p.source.kind part = "export_clause" →
    spec ∈ p.source.namedChildren part → p.source.kind spec = "export_specifier" →
    p.source.child? spec "name" = some n → p.source.child? spec "alias" = some a →
    p.declared.contains a = true
  exports : ∀ {f stmt part spec n}, f ∈ p.source.fileIds → stmt ∈ topNodes p.source f →
    ExportPart p.source stmt part → p.source.kind part = "export_clause" →
    p.source.child? stmt "source" = none →
    spec ∈ p.source.namedChildren part → p.source.kind spec = "export_specifier" →
    p.source.child? spec "name" = some n → p.source.kind n ∈ typeKind :: valueKinds →
    Reached p.source n → p.Indexed n

/-- **A program that has been built indexes names.** -/
theorem indexesNames_of_build {files : List ParsedFile} (h : build files = .ok p) :
    p.IndexesNames := by
  obtain ⟨src, rfl, hs⟩ := laidOut_of_build h
  have hsource := source_ofSource hs
  constructor <;> rw [hsource]
  · exact fun {_} => indexed_ofSource hs
  · exact fun {_ _ _} hf hstmt hkind h => declared_of_importBinds hs hf hstmt hkind h
  · exact fun {_ _ _ _} hf hstmt h hkind ha => declared_of_namespaceExport hs hf hstmt h hkind ha
  · exact fun {_ _ _ _ _ _} hf hstmt h hkind hspec hskind hname ha =>
      declared_of_recorded (recorded_bound hs hf hstmt h hkind hspec hskind) hname ha
  · intro f stmt part spec n hf hstmt h hkind hnone hspec hskind hname hn hreached
    have hrecorded := recorded_bound hs hf hstmt h hkind hspec hskind
    rw [exportSource, hnone] at hrecorded
    exact indexed_of_recorded hs hrecorded hskind hname hn hreached

/-- An assignment by a pattern, whose shorthand name is a use that is left out. -/
def assigned : ParsedFile where
  path := "main.ts"
  contents := "let sum = 0; [{ sum }] = all".toUTF8
  tree :=
    .node "program" "" true 0 28 [
      .node "lexical_declaration" "" true 0 12 [
        .node "let" "kind" false 0 3 [],
        .node "variable_declarator" "" true 4 11 [
          .node "identifier" "name" true 4 7 [],
          .node "number" "value" true 10 11 []]],
      .node "expression_statement" "" true 13 28 [
        .node "assignment_expression" "" true 13 28 [
          .node "array_pattern" "left" true 13 22 [
            .node "object_pattern" "" true 14 21 [
              .node "shorthand_property_identifier_pattern" "" true 16 19 []]],
          .node "identifier" "right" true 25 28 []]]]

theorem indexesNames_of_build_assigned : ∃ p, build [assigned] = .ok p ∧ p.IndexesNames :=
  ⟨_, build_singleton assigned, indexesNames_of_build (build_singleton assigned)⟩

end Program
end Moniker
