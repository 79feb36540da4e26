/-
# Where an index is asked from

The same symbol can be asked for at each of its occurrences.  What is found in the
documents does not depend on the occurrence (`Index.spelled`); what is left of it does.  A
symbol of one document is looked for in the document it was asked from.  A symbol that an
export clause names without an alias loses all places outside the file it was asked from,
also when that file is one that imports it and the clause stands elsewhere.  So two
occurrences get the same answer just when they stand in one file or nothing is left out
(`Index.locate_eq_iff_of_anchors`).
-/

import Moniker.Index.Locate
import Moniker.Proofs.Bytes
import Mathlib.Order.Nat

namespace Moniker
namespace Index

variable {i : Index} {p : Program} {d doc : IndexDocument} {docs : List IndexDocument} {f : FileId}
  {keep : IndexOccurrence → Bool} {h : Hit} {hs : List Hit} {file symbol : String} {pos : Int}
  {l : Location} {places : List Location}

/-- The occurrence that a place in a file stands on. -/
def anchor? (i : Index) (p : Program) (file : String) (pos : Int) : Option Hit := do
  let doc ← i.document? file
  let f ← p.fileAt? doc.path
  around? pos (hits p doc f fun _ => true).1

/-- The places of a symbol in some documents, before any is left out. -/
def spelled (p : Program) (docs : List IndexDocument) (symbol : String) : List Location :=
  (distinct (gather p docs symbol).1).filterMap (locationOf? p)

/-- Does an export clause in the documents name the symbol without an alias? -/
def ExportedAsIs (p : Program) (docs : List IndexDocument) (symbol : String) : Prop :=
  ∃ l ∈ spelled p docs symbol, l.kind = .exportSpecifier

/-! ### Hits -/

theorem mem_hits : h ∈ (hits p d f keep).1 ↔
    h.path = d.path ∧ h.file = f ∧ h.occurrence ∈ d.occurrences ∧ keep h.occurrence = true ∧
      span? (Text.lines (p.source.file f).contents) d.unit h.occurrence.range =
        some (h.start, h.stop) := by
  simp only [hits, List.mem_filterMap, List.mem_map, List.mem_filter]
  constructor
  · rintro ⟨_, ⟨o, ⟨ho, hkeep⟩, rfl⟩, hspan⟩
    obtain ⟨⟨start, stop⟩, hso, rfl⟩ := Option.map_eq_some_iff.mp hspan
    exact ⟨rfl, rfl, ho, hkeep, hso⟩
  · rintro ⟨hpath, rfl, ho, hkeep, hspan⟩
    refine ⟨_, ⟨h.occurrence, ⟨ho, hkeep⟩, rfl⟩, ?_⟩
    rw [hspan, Option.map_some, ← hpath]

/-- Two hits cover the same bytes of the same file. -/
def SameBytes (a b : Hit) : Prop := a.path = b.path ∧ a.start = b.start ∧ a.stop = b.stop

/-- One step of dropping the occurrences on the same bytes as an earlier one. -/
def keepFirst (acc : List Hit) (h : Hit) : List Hit :=
  if acc.any fun a => a.path == h.path && a.start == h.start && a.stop == h.stop then acc
  else acc ++ [h]

theorem mem_of_mem_keepFirst {acc : List Hit} {first : Hit} (hmem : h ∈ keepFirst acc first) :
    h ∈ acc ∨ h = first := by
  unfold keepFirst at hmem
  split at hmem
  · exact .inl hmem
  · exact (List.mem_append.mp hmem).imp_right List.mem_singleton.mp

theorem mem_keepFirst {acc : List Hit} (hmem : h ∈ acc) (first : Hit) : h ∈ keepFirst acc first := by
  unfold keepFirst
  split
  · exact hmem
  · exact List.mem_append_left _ hmem

theorem exists_mem_keepFirst (acc : List Hit) (h : Hit) : ∃ a ∈ keepFirst acc h, SameBytes a h := by
  unfold keepFirst
  split
  · rename_i hany
    obtain ⟨a, ha, hsame⟩ := List.any_eq_true.mp hany
    simp only [Bool.and_eq_true, beq_iff_eq] at hsame
    exact ⟨a, ha, hsame.1.1, hsame.1.2, hsame.2⟩
  · exact ⟨h, List.mem_append_right _ List.mem_cons_self, rfl, rfl, rfl⟩

theorem mem_of_mem_distinct (hmem : h ∈ distinct hs) : h ∈ hs := by
  have hfold : ∀ (rest acc : List Hit), h ∈ rest.foldl keepFirst acc → h ∈ acc ∨ h ∈ rest := by
    intro rest
    induction rest with
    | nil => exact fun _ hmem => .inl hmem
    | cons first rest ih =>
      intro acc hmem
      rcases ih _ hmem with hacc | hrest
      · rcases mem_of_mem_keepFirst hacc with hacc | rfl
        · exact .inl hacc
        · exact .inr List.mem_cons_self
      · exact .inr (List.mem_cons_of_mem _ hrest)
  exact (hfold hs [] hmem).resolve_left List.not_mem_nil

/-- **Dropping occurrences on the same bytes drops no bytes.** -/
theorem exists_mem_distinct (hmem : h ∈ hs) : ∃ a ∈ distinct hs, SameBytes a h := by
  have hfold : ∀ (rest acc : List Hit), (∃ a ∈ acc, SameBytes a h) ∨ h ∈ rest →
      ∃ a ∈ rest.foldl keepFirst acc, SameBytes a h := by
    intro rest
    induction rest with
    | nil => exact fun _ hor => hor.resolve_right List.not_mem_nil
    | cons first rest ih =>
      rintro acc (⟨a, ha, hsame⟩ | hmem)
      · exact ih _ (.inl ⟨a, mem_keepFirst ha first, hsame⟩)
      · rcases List.mem_cons.mp hmem with rfl | hrest
        · exact ih _ (.inl (exists_mem_keepFirst acc h))
        · exact ih _ (.inr hrest)
  exact hfold hs [] (.inr hmem)

theorem around?_eq_some (hanchor : around? pos hs = some h) :
    h ∈ hs ∧ (h.start : Int) ≤ pos ∧ pos < h.stop := by
  have hcovering : h ∈ hs.filter fun h => (h.start : Int) ≤ pos && pos < h.stop := by
    unfold around? at hanchor
    dsimp only at hanchor
    cases hfind : (hs.filter fun h => (h.start : Int) ≤ pos && pos < h.stop).find?
        fun h => h.occurrence.isDefinition with
    | some a =>
      rw [hfind] at hanchor
      exact Option.some.inj hanchor ▸ List.mem_of_find?_eq_some hfind
    | none =>
      rw [hfind] at hanchor
      exact List.mem_of_head? hanchor
  simpa using hcovering

/-! ### Places -/

theorem locationOf?_file (hl : locationOf? p h = some l) : l.file = h.path := by
  unfold locationOf? at hl
  grind

theorem locationOf?_isSome (hne : h.start ≠ h.stop) : (locationOf? p h).isSome = true := by
  unfold locationOf?
  rw [if_neg hne]
  dsimp only
  split <;> rfl

theorem mem_gather : h ∈ (gather p docs symbol).1 ↔ ∃ d ∈ docs, ∃ f, p.fileAt? d.path = some f ∧
    h ∈ (hits p d f fun o => symbol == "" || o.symbol == symbol).1 := by
  simp only [gather, List.mem_flatMap, List.mem_map]
  constructor
  · rintro ⟨_, ⟨d, hd, rfl⟩, hmem⟩
    cases hf : p.fileAt? d.path with
    | none => simp [hf] at hmem
    | some f =>
      rw [hf] at hmem
      exact ⟨d, hd, f, hf, hmem⟩
  · rintro ⟨d, hd, f, hf, hmem⟩
    refine ⟨_, ⟨d, hd, rfl⟩, ?_⟩
    rw [hf]
    exact hmem

/-- Every place of a symbol lies in a file that one of the documents is about. -/
theorem exists_document_of_mem_spelled (hl : l ∈ spelled p docs symbol) :
    ∃ d ∈ docs, l.file = d.path := by
  obtain ⟨h, hmem, hloc⟩ := List.mem_filterMap.mp hl
  obtain ⟨d, hd, _, -, hhit⟩ := mem_gather.mp (mem_of_mem_distinct hmem)
  exact ⟨d, hd, (locationOf?_file hloc).trans (mem_hits.mp hhit).1⟩

theorem document?_eq_some (hdoc : i.document? file = some doc) :
    doc ∈ i.documents ∧ doc.path = file := by
  have hfind := List.find?_eq_some_iff_append.mp hdoc
  exact ⟨List.mem_reverse.mp (List.mem_of_find?_eq_some hdoc), by simpa using hfind.1⟩

/-- What an anchor stands on is an occurrence of a document about the file, and covers
something. -/
theorem anchor?_eq_some (hanchor : i.anchor? p file pos = some h) :
    ∃ doc f, i.document? file = some doc ∧ p.fileAt? doc.path = some f ∧
      around? pos (hits p doc f fun _ => true).1 = some h := by
  unfold anchor? at hanchor
  obtain ⟨doc, hdoc, hanchor⟩ := Option.bind_eq_some_iff.mp hanchor
  obtain ⟨f, hf, hanchor⟩ := Option.bind_eq_some_iff.mp hanchor
  exact ⟨doc, f, hdoc, hf, hanchor⟩

/-- **The symbol of an anchor has a place in the anchor's file,** in whatever documents it is
looked for, if the anchor's is one of them. -/
theorem exists_mem_spelled (hf : p.fileAt? doc.path = some f) (hdoc : doc ∈ docs)
    (hanchor : around? pos (hits p doc f fun _ => true).1 = some h) :
    ∃ l ∈ spelled p docs h.occurrence.symbol, l.file = doc.path := by
  obtain ⟨hhit, hstart, hstop⟩ := around?_eq_some hanchor
  obtain ⟨hpath, hfile, ho, -, hspan⟩ := mem_hits.mp hhit
  have hfound : h ∈ (gather p docs h.occurrence.symbol).1 :=
    mem_gather.mpr ⟨doc, hdoc, f, hf, mem_hits.mpr ⟨hpath, hfile, ho, by simp, hspan⟩⟩
  obtain ⟨a, ha, hsame⟩ := exists_mem_distinct hfound
  have hcovers : a.start ≠ a.stop := by
    rw [hsame.2.1, hsame.2.2]
    omega
  obtain ⟨l, hl⟩ := Option.isSome_iff_exists.mp (locationOf?_isSome (p := p) hcovers)
  exact ⟨l, List.mem_filterMap.mpr ⟨a, ha, hl⟩,
    (locationOf?_file hl).trans (hsame.1.trans hpath)⟩

/-! ### Answers -/

/-- The documents in which a symbol is looked for from one of them. -/
def searched (i : Index) (doc : IndexDocument) (symbol : String) : List IndexDocument :=
  if SymbolName.namesLocal symbol then [doc] else i.documents

theorem mem_searched (hdoc : doc ∈ i.documents) : doc ∈ searched i doc symbol := by
  unfold searched
  split
  · exact List.mem_cons_self
  · exact hdoc

theorem any_exportSpecifier_iff :
    (spelled p docs symbol).any (fun l => l.kind == .exportSpecifier) = true ↔
      ExportedAsIs p docs symbol := by
  simp [ExportedAsIs]

theorem placesOf_eq (i : Index) (p : Program) (doc : IndexDocument) (symbol : String) :
    (placesOf p i doc symbol).1 =
      (if (spelled p (searched i doc symbol) symbol).any fun l => l.kind == .exportSpecifier then
        (spelled p (searched i doc symbol) symbol).filter fun l => l.file == doc.path
      else spelled p (searched i doc symbol) symbol).mergeSort locationLe := rfl

theorem mem_placesOf : l ∈ (placesOf p i doc symbol).1 ↔
    l ∈ spelled p (searched i doc symbol) symbol ∧
      (ExportedAsIs p (searched i doc symbol) symbol → l.file = doc.path) := by
  rw [placesOf_eq, List.mem_mergeSort]
  by_cases hexp : ExportedAsIs p (searched i doc symbol) symbol
  · simp [any_exportSpecifier_iff.mpr hexp, hexp]
  · simp [Bool.eq_false_iff.mpr (mt any_exportSpecifier_iff.mp hexp), hexp]

/-- Where nothing is left out, the document asked from does not matter. -/
theorem placesOf_of_not_exportedAsIs (hlocal : SymbolName.namesLocal symbol = false)
    (hexp : ¬ ExportedAsIs p i.documents symbol) (doc : IndexDocument) :
    (placesOf p i doc symbol).1 = (spelled p i.documents symbol).mergeSort locationLe := by
  have hsearched : searched i doc symbol = i.documents := if_neg (Bool.eq_false_iff.mp hlocal)
  rw [placesOf_eq, hsearched, if_neg (mt any_exportSpecifier_iff.mp hexp)]

theorem locate_of_anchor (hdoc : i.document? file = some doc) (hf : p.fileAt? doc.path = some f)
    (hanchor : around? pos (hits p doc f fun _ => true).1 = some h) :
    i.locate p file pos = .ok (placesOf p i doc h.occurrence.symbol).1 := by
  rw [locate, lookup, hdoc]
  simp only [hf, hanchor]

/-- What a place in a file is answered for the symbol that stands there. -/
structure Answer (i : Index) (p : Program) (file symbol : String) (places : List Location) :
    Prop where
  /-- A symbol of one document: all places lie in the file. -/
  ofDocument : SymbolName.namesLocal symbol = true → ∀ l ∈ places, l.file = file
  /-- Any other symbol: all its places in all documents, but only those in the file if an
  export clause names it as it is. -/
  everywhere : SymbolName.namesLocal symbol = false → ∀ l, l ∈ places ↔
    l ∈ spelled p i.documents symbol ∧ (ExportedAsIs p i.documents symbol → l.file = file)
  /-- One of them lies in the file. -/
  inFile : ∃ l ∈ places, l.file = file
  ordered : places.Pairwise fun a b => locationLe a b = true

theorem locationLe_total (a b : Location) : (locationLe a b || locationLe b a) = true := by
  unfold locationLe Text.lexLe
  by_cases hfile : a.file = b.file
  · simpa [hfile] using Int.le_total a.start b.start
  · simpa [hfile, Ne.symm hfile] using String.le_total a.file b.file

theorem locationLe_trans (a b c : Location) (hab : locationLe a b = true)
    (hbc : locationLe b c = true) : locationLe a c = true := by
  unfold locationLe Text.lexLe at *
  by_cases hfile : a.file = b.file
  · by_cases hfile' : b.file = c.file
    · simp only [hfile, hfile', bne_self_eq_false, Bool.false_eq_true, if_false,
        decide_eq_true_eq] at hab hbc ⊢
      exact Int.le_trans hab hbc
    · simpa [hfile, hfile'] using hbc
  · by_cases hfile' : b.file = c.file
    · simpa [← hfile', hfile] using hab
    · by_cases hfile'' : a.file = c.file
      · simp only [bne_iff_ne, ne_eq, hfile, hfile', not_false_eq_true, if_true,
          decide_eq_true_eq] at hab hbc
        exact absurd (String.le_antisymm hab (hfile'' ▸ hbc)) hfile
      · simp only [bne_iff_ne, ne_eq, hfile, hfile', hfile'', not_false_eq_true, if_true,
          decide_eq_true_eq] at hab hbc ⊢
        exact String.le_trans hab hbc

theorem answer_placesOf (hdoc : i.document? file = some doc) (hf : p.fileAt? doc.path = some f)
    (hanchor : around? pos (hits p doc f fun _ => true).1 = some h) :
    Answer i p file h.occurrence.symbol (placesOf p i doc h.occurrence.symbol).1 := by
  obtain ⟨hmem, rfl⟩ := document?_eq_some hdoc
  refine ⟨fun hlocal l hl => ?_, fun hlocal l => ?_, ?_, ?_⟩
  · have hsearched : searched i doc h.occurrence.symbol = [doc] := if_pos hlocal
    have hspelled := (mem_placesOf.mp hl).1
    rw [hsearched] at hspelled
    obtain ⟨d, hd, hfile⟩ := exists_document_of_mem_spelled hspelled
    rw [hfile, List.mem_singleton.mp hd]
  · have hsearched : searched i doc h.occurrence.symbol = i.documents :=
      if_neg (Bool.eq_false_iff.mp hlocal)
    rw [mem_placesOf, hsearched]
  · obtain ⟨l, hl, hfile⟩ := exists_mem_spelled hf (mem_searched hmem) hanchor
    exact ⟨l, mem_placesOf.mpr ⟨hl, fun _ => hfile⟩, hfile⟩
  · exact List.pairwise_mergeSort locationLe_trans locationLe_total _

/-- **Where an index is asked from matters** just for symbols of one document, and for those
an export clause names without an alias: asked from two occurrences of one symbol, the
places are the same iff the occurrences stand in one file or the symbol is neither. -/
theorem locate_eq_iff_of_anchors (i : Index) (p : Program) (file file' : String) (pos pos' : Int)
    (h h' : Hit) (hanchor : i.anchor? p file pos = some h)
    (hanchor' : i.anchor? p file' pos' = some h')
    (hsymbol : h.occurrence.symbol = h'.occurrence.symbol) :
    ∃ places places', i.locate p file pos = .ok places ∧ i.locate p file' pos' = .ok places' ∧
      Answer i p file h.occurrence.symbol places ∧ Answer i p file' h.occurrence.symbol places' ∧
      (places = places' ↔ file = file' ∨
        SymbolName.namesLocal h.occurrence.symbol = false ∧
          ¬ ExportedAsIs p i.documents h.occurrence.symbol) := by
  obtain ⟨doc, f, hdoc, hf, hfound⟩ := anchor?_eq_some hanchor
  obtain ⟨doc', f', hdoc', hf', hfound'⟩ := anchor?_eq_some hanchor'
  have hanswer := answer_placesOf hdoc hf hfound
  have hanswer' := answer_placesOf hdoc' hf' hfound'
  rw [← hsymbol] at hanswer'
  refine ⟨_, _, locate_of_anchor hdoc hf hfound, locate_of_anchor hdoc' hf' hfound', hanswer,
    hsymbol ▸ hanswer', ?_⟩
  rw [← hsymbol]
  constructor
  · intro heq
    by_contra hnot
    obtain ⟨hne, hleft⟩ := not_or.mp hnot
    -- The place in the one file would be a place in the other.
    obtain ⟨l, hl, hfile⟩ := hanswer'.inFile
    rw [← heq] at hl
    refine hne (Eq.trans ?_ hfile)
    symm
    cases hlocal : SymbolName.namesLocal h.occurrence.symbol with
    | true => exact hanswer.ofDocument hlocal l hl
    | false =>
      have hexp := not_not.mp (not_and.mp hleft hlocal)
      exact ((hanswer.everywhere hlocal l).mp hl).2 hexp
  · rintro (rfl | ⟨hlocal, hexp⟩)
    · rw [hdoc] at hdoc'
      rw [Option.some.inj hdoc']
    · rw [placesOf_of_not_exportedAsIs hlocal hexp, placesOf_of_not_exportedAsIs hlocal hexp]

/-- Two loaded files: a clause of one exports a name as it is, the other imports it. -/
def importedFiles : Program where
  source := (({} : Source).add "a.ts" "let x;\nexport { x };\n".toUTF8
    (.node "program" "" true 0 21 [
      .node "lexical_declaration" "" true 0 6 [
        .node "variable_declarator" "" true 4 5 [.node "identifier" "name" true 4 5 []]],
      .node "export_statement" "" true 7 20 [
        .node "export_clause" "" true 14 19 [
          .node "export_specifier" "" true 16 17 [.node "identifier" "name" true 16 17 []]]]])).add
    "b.ts" "import { x } from './a';\nx;\n".toUTF8
    (.node "program" "" true 0 28 [
      .node "import_statement" "" true 0 24 [
        .node "import_clause" "" true 7 12 [
          .node "named_imports" "" true 7 12 [
            .node "import_specifier" "" true 9 10 [.node "identifier" "name" true 9 10 []]]]],
      .node "expression_statement" "" true 25 27 [.node "identifier" "" true 25 26 []]])
  modules := #[{ name := "a.ts", file := ⟨0⟩ }, { name := "b.ts", file := ⟨1⟩ }]
  modulesByPath := (({} : Table String ModuleId).insert "a.ts" ⟨0⟩).insert "b.ts" ⟨1⟩

/-- What an index says about the exporting file. -/
def exporting : IndexDocument where
  path := "a.ts"
  occurrences := [⟨[0, 4, 5], "a.ts/x.", 1⟩, ⟨[1, 9, 10], "a.ts/x.", 8⟩]

/-- What an index says about the importing file. -/
def importing : IndexDocument where
  path := "b.ts"
  occurrences := [⟨[0, 9, 10], "a.ts/x.", 2⟩, ⟨[1, 0, 1], "a.ts/x.", 8⟩]

theorem fileAt?_exporting : importedFiles.fileAt? exporting.path = some ⟨0⟩ := by
  have hclean : Path.clean exporting.path = "a.ts" := by decide
  have hmodule : importedFiles.modulesByPath["a.ts"]? = some ⟨0⟩ := by
    rw [importedFiles, Table.getElem?_insert, if_neg (by decide)]
    exact Std.TreeMap.getElem?_insert_self
  rw [Program.fileAt?, hclean, hmodule]
  rfl

theorem fileAt?_importing : importedFiles.fileAt? importing.path = some ⟨1⟩ := by
  have hclean : Path.clean importing.path = "b.ts" := by decide
  have hmodule : importedFiles.modulesByPath["b.ts"]? = some ⟨1⟩ :=
    Std.TreeMap.getElem?_insert_self
  rw [Program.fileAt?, hclean, hmodule]
  rfl

theorem anchor?_exporting : anchor? { documents := [exporting, importing] } importedFiles "a.ts" 4 =
    some ⟨"a.ts", ⟨0⟩, ⟨[0, 4, 5], "a.ts/x.", 1⟩, 4, 5⟩ := by
  have hdoc : document? { documents := [exporting, importing] } "a.ts" = some exporting := rfl
  rw [anchor?, hdoc]
  simp only [Option.bind_eq_bind, Option.bind_some, fileAt?_exporting, hits, Text.lines, Text.toList_eq]
  decide

theorem anchor?_importing : anchor? { documents := [exporting, importing] } importedFiles "b.ts" 9 =
    some ⟨"b.ts", ⟨1⟩, ⟨[0, 9, 10], "a.ts/x.", 2⟩, 9, 10⟩ := by
  have hdoc : document? { documents := [exporting, importing] } "b.ts" = some importing := rfl
  rw [anchor?, hdoc]
  simp only [Option.bind_eq_bind, Option.bind_some, fileAt?_importing, hits, Text.lines, Text.toList_eq]
  decide

theorem locationOf?_exporting :
    locationOf? importedFiles ⟨"a.ts", ⟨0⟩, ⟨[1, 9, 10], "a.ts/x.", 8⟩, 16, 17⟩ =
      some { file := "a.ts", start := 16, stop := 17, kind := .exportSpecifier, after := " as x" } := by
  have hnode : importedFiles.source.nodeAt? (importedFiles.source.file ⟨0⟩).root 16 =
      some ⟨7⟩ := by decide
  have htext : Text.decode (Text.slice (importedFiles.source.file ⟨0⟩).contents 16 17) = "x" := by
    decide
  have hkind : importedFiles.source.kind ⟨7⟩ = "identifier" := by decide
  have hfield : importedFiles.source.field ⟨7⟩ = "name" := by decide
  have hparent : importedFiles.source.parent ⟨7⟩ = some ⟨6⟩ := by decide
  have hspecifier : importedFiles.source.kind ⟨6⟩ = "export_specifier" := by decide
  have halias : importedFiles.source.child? ⟨6⟩ "alias" = none := by decide
  simp [locationOf?, hnode, htext, hkind, hfield, hparent, hspecifier, halias]

theorem exportedAsIs_exporting : ExportedAsIs importedFiles [exporting, importing] "a.ts/x." := by
  have hexporting : (hits importedFiles exporting ⟨0⟩ fun o => o.symbol == "a.ts/x.").1 =
      [⟨"a.ts", ⟨0⟩, ⟨[0, 4, 5], "a.ts/x.", 1⟩, 4, 5⟩,
        ⟨"a.ts", ⟨0⟩, ⟨[1, 9, 10], "a.ts/x.", 8⟩, 16, 17⟩] := by
    simp only [hits, Text.lines, Text.toList_eq]
    decide
  have himporting : (hits importedFiles importing ⟨1⟩ fun o => o.symbol == "a.ts/x.").1 =
      [⟨"b.ts", ⟨1⟩, ⟨[0, 9, 10], "a.ts/x.", 2⟩, 9, 10⟩,
        ⟨"b.ts", ⟨1⟩, ⟨[1, 0, 1], "a.ts/x.", 8⟩, 25, 26⟩] := by
    simp only [hits, Text.lines, Text.toList_eq]
    decide
  have hgather : (gather importedFiles [exporting, importing] "a.ts/x.").1 =
      (hits importedFiles exporting ⟨0⟩ fun o => o.symbol == "a.ts/x.").1 ++
        (hits importedFiles importing ⟨1⟩ fun o => o.symbol == "a.ts/x.").1 := by
    simp [gather, fileAt?_exporting, fileAt?_importing]
  refine ⟨_, List.mem_filterMap.mpr ⟨_, ?_, locationOf?_exporting⟩, rfl⟩
  rw [hgather, hexporting, himporting]
  simp [distinct]

/-- An exported and imported name: asked from the file that exports it and from the file that
imports it, the index tells different places. -/
theorem locate_eq_iff_of_anchors_imported :
    anchor? { documents := [exporting, importing] } importedFiles "a.ts" 4 =
        some ⟨"a.ts", ⟨0⟩, ⟨[0, 4, 5], "a.ts/x.", 1⟩, 4, 5⟩ ∧
      anchor? { documents := [exporting, importing] } importedFiles "b.ts" 9 =
        some ⟨"b.ts", ⟨1⟩, ⟨[0, 9, 10], "a.ts/x.", 2⟩, 9, 10⟩ ∧
      ∃ places places',
        locate { documents := [exporting, importing] } importedFiles "a.ts" 4 = .ok places ∧
        locate { documents := [exporting, importing] } importedFiles "b.ts" 9 = .ok places' ∧
        places ≠ places' := by
  obtain ⟨places, places', hplaces, hplaces', -, -, hiff⟩ :=
    locate_eq_iff_of_anchors { documents := [exporting, importing] } importedFiles "a.ts" "b.ts" 4 9
      _ _ anchor?_exporting anchor?_importing rfl
  refine ⟨anchor?_exporting, anchor?_importing, places, places', hplaces, hplaces', fun heq => ?_⟩
  rcases hiff.mp heq with hfile | ⟨-, hexp⟩
  · exact absurd hfile (by decide)
  · exact hexp exportedAsIs_exporting

end Index
end Moniker
