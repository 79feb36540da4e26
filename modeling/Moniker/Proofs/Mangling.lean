/-
# Mangling is not refused

A plan and what is made of it are connected by offsets alone: a directive says where a name
starts and what it spells (`Renaming.Describes`), and the program that made the plan is asked
what stands there.  The answer is the symbol that the directive is about
(`Program.symbolAt_start`), all places to rename spell its name, and the places of all
directives are without conflict.  So no directive is dropped, no file is refused, and what is
edited are these places (`ManglePlan.CarriedOut`).

For this the names of what is renamed must be its own (`ManglePlan.OwnsNames`).  A computed
name of a class member is visited twice, and so may come to declare another symbol than the one
that counts it among its declarations; and what a module exports as `default` is denoted by that
word, which is not its name.
-/

import Moniker.Proofs.Sharing
import Moniker.Rename.Mangle

namespace Moniker

open Program (Later)

/-! ### What directives say -/

/-- The renaming says where the declaration stands and what the name of the symbol is, or was
when the renaming was made. -/
structure Renaming.Describes (p : Program) (r : Renaming) : Prop where
  file : r.file = p.source.pathOf r.decl
  pos : r.pos = p.source.start r.decl
  oldName : ∃ q, Later p q ∧ r.oldName = (q.symbol r.symbol).name

namespace Allocator

variable {p q : Program} {a : Allocator} {r : Renaming} {unresolved : FileId → List String}

theorem step_describes {e : Entry} (hq : Later p q)
    (hr : r ∈ ((a.step unresolved e).value q).1.toList) : r.Describes p := by
  unfold step at hr
  split at hr
  · exact nomatch hr
  · have hlater := hq.trans ((namesOf_inquires a e.domain).later q)
    simp only [Build.value_bind, Build.value_read, Build.after_read, Build.value_pure,
      Program.Extends.source_eq hlater, Option.toList_some, List.mem_singleton] at hr
    subst hr
    exact ⟨rfl, rfl, _, hlater, rfl⟩

/-- **Renamings describe the declarations they were made for.** -/
theorem giveAll_describes {es : List Entry} {given : List Renaming × Allocator} (hq : Later p q)
    (hgiven : ∀ r ∈ given.1, r.Describes p) :
    ∀ r ∈ ((es.foldlM (give unresolved) given).value q).1, r.Describes p := by
  induction es generalizing given q with
  | nil => exact hgiven
  | cons e es ih =>
    rw [List.foldlM_cons, Build.value_bind]
    refine ih (hq.trans ((give_inquires unresolved given e).later q)) fun r hr => ?_
    rcases List.mem_append.mp hr with hr | hr
    · exact hgiven r hr
    · exact step_describes hq hr

theorem allocate_describes {es : List Entry} (hq : Later p q) :
    ∀ r ∈ ((a.allocate es).value q).1, r.Describes p := by
  rw [allocate, Build.value_bind, Build.after_read, Build.value_read]
  exact giveAll_describes hq fun _ hr => absurd hr List.not_mem_nil

end Allocator

namespace ManglePlan

variable {p : Program} {sel : List FileId} {opts : MangleOptions} {r : Renaming} {s : SymbolId}

theorem describes_planMangle (hr : r ∈ ((planMangle sel opts).value p).renamings) :
    r.Describes p := by
  have hanalysis := (analyze_inquires sel opts.toSurfaceOptions).later p
  have hgeneral := hanalysis.trans ((Allocator.allocate_inquires { reserved := opts.reserved }
    ((analyze sel opts.toSurfaceOptions).value p).general).later _)
  unfold planMangle ManglePlan.ofAnalysis at hr
  simp only [Build.value_bind] at hr
  split at hr
  · simp only [Build.value_bind, Build.value_pure, List.mem_append] at hr
    exact hr.elim (Allocator.allocate_describes hanalysis r) (Allocator.allocate_describes hgeneral r)
  · exact Allocator.allocate_describes hanalysis r hr

end ManglePlan

/-! ### What stands where directives say -/

namespace Program

variable {p q : Program} {n : NodeId} {s : SymbolId} {l : Location} {files : List ParsedFile}

/-- Questions about types change nothing about what stands at an offset. -/
theorem symbolAt_asked (h : Asked p q) (hsame : SameOccurrences p q) : q.symbolAt = p.symbolAt := by
  have hext := h.extends
  have hfile : q.fileAt? = p.fileAt? := by
    funext path
    have hpaths : q.modulesByPath = p.modulesByPath :=
      show q.frame.modulesByPath = p.frame.modulesByPath by rw [hext.frame_eq]
    unfold fileAt? moduleInfo
    rw [hpaths, hext.modules_eq]
  have hnode : q.symbolOfNode? = p.symbolOfNode? := by
    funext n
    unfold symbolOfNode?
    rw [hsame.declared, hsame.referenced, hsame.memberAt]
  have hfrom : ∀ fuel n, q.symbolFrom? fuel n = p.symbolFrom? fuel n := by
    intro fuel
    induction fuel with
    | zero => exact fun _ => rfl
    | succ fuel ih =>
      intro n
      unfold symbolFrom?
      rw [hnode, hext.source_eq, funext ih]
  funext file pos
  unfold symbolAt
  simp only [hfile, hext.source_eq, hfrom]

theorem sameOccurrences_asked (hbuild : build files = .ok p) (h : Asked p q) :
    SameOccurrences p q := by
  obtain ⟨src, rfl, hs⟩ := laidOut_of_build hbuild
  refine h.sameOccurrences ?_
  rw [source_ofSource hs]
  exact allLinked_ofSource hs

/-- **Where a name that declares a symbol starts stands the symbol.** -/
theorem symbolAt_start (hbuild : build files = .ok p) (hshape : p.ParserShaped)
    (hn : p.source.WrittenAsName n) (hd : p.declared[n]? = some s) :
    p.symbolAt (p.source.pathOf n) (p.source.start n) = .ok s := by
  have haddressed := addressed_of_build hbuild
  obtain ⟨src, rfl, hs⟩ := laidOut_of_build hbuild
  have hsource := source_ofSource hs
  have hfile : (ofSource src).fileAt? ((ofSource src).source.pathOf n) =
      some ((ofSource src).source.fileOf n) := by
    rw [hsource] at haddressed hn ⊢
    exact fileAt?_path hs haddressed (hs.below_root n hn.lt_size).1
  have hnode := hshape.nested.nodeAt?_start (by rwa [hsource]) hn.lt_size hn.named hn.nonempty
    hn.start_lt
  have hfrom : ∀ fuel, (ofSource src).symbolFrom? (fuel + 1) n = some s := fun fuel => by
    rw [symbolFrom?, symbolOfNode?, hd]
    rfl
  unfold symbolAt
  simp only [hfile, hnode, Option.bind_eq_bind, Option.bind_some, hfrom]

/-- Occurrences stand for their symbol, if its declarations declare it. -/
theorem standsFor_of_mem_occurrences (hbuild : build files = .ok p)
    (hd : ∀ n ∈ (p.symbol s).decls, p.declared[n]? = some s) (hn : n ∈ p.occurrences s) :
    p.StandsFor n s := by
  obtain ⟨src, rfl, hs⟩ := laidOut_of_build hbuild
  rcases (mem_occurrences (exact_ofSource hs)).mp hn with h | h | h
  · exact .declares (hd n h)
  · exact .refers h
  · exact .accesses h

/-- **What is written at a name that spells its symbol** lies in the file, and is the name of the
symbol unless the name is in quotes. -/
theorem locationOf_spells (hs : p.source.LaidOut) (hn : p.source.Nested)
    (hname : p.source.WrittenAsName n) (hspells : p.source.Spells n (p.symbol s).name)
    (hl : p.locationOf s n = l) {content : ByteArray}
    (hcontent : content = (p.source.file (p.source.fileOf n)).contents) :
    0 ≤ l.start ∧ l.start ≤ l.stop ∧ l.stop ≤ content.size ∧
      (l.kind ≠ .stringKey →
        Text.slice content l.start.toNat l.stop.toNat = Text.encode (p.symbol s).name) := by
  subst hl hcontent
  have hbounds := @locationOf_bounds p n s hname.nonempty
  have hstop := hn.stop_le_size hs hname.lt_size
  refine ⟨by omega, by omega, by omega, fun hkind => ?_⟩
  have hbare : p.source.kind n ≠ "string" := fun h => hkind (locationOf_string h).1
  obtain ⟨hstart, hstop, -⟩ := @locationOf_bare p n s hbare
  rw [hstart, hstop, Int.toNat_natCast, Int.toNat_natCast, ← hname.text_eq hbare hspells,
    hname.whole]
  rfl

end Program

/-! ### Carrying out a plan -/

/-- The rename of a symbol at all its places. -/
def Renaming.item (p : Program) (r : Renaming) : RenameItem :=
  { oldName := r.oldName, target := r.target, locations := p.renameLocations r.symbol }

namespace ManglePlan

variable {p q : Program} {plan : ManglePlan} {sel : List FileId} {opts : MangleOptions}
  {r d : Renaming} {s : SymbolId} {n : NodeId} {l l' : Location} {files : List ParsedFile}
  {sources : String → Option ByteArray} {file : String}

/-- The names of what is renamed are its own. -/
structure OwnsNames (p : Program) (plan : ManglePlan) : Prop where
  /-- Its declarations declare nothing else. -/
  declared : ∀ s, plan.Renames s → ∀ n ∈ (p.symbol s).decls, p.declared[n]? = some s
  /-- No property denotes it by another name that a module exports it under. -/
  exported : ∀ s, plan.Renames s → ∀ n, p.memberAt[n]? = some s → ∀ m name,
    (name, s) ∈ (p.moduleInfo m).exports → p.source.Spells n name → name = (p.symbol s).name

/-- The range of the file is a place to rename of a symbol that gets another name. -/
def Covers (p : Program) (plan : ManglePlan) (file : String) (range : Int × Int) : Prop :=
  ∃ d ∈ plan.changed, ∃ l ∈ p.renameLocations d.symbol, l.file = file ∧ (l.start, l.stop) = range

/-- What it means that a plan is carried out as it stands. -/
structure CarriedOut (p : Program) (plan : ManglePlan) (sources : String → Option ByteArray)
    (r : RenameResult) : Prop where
  /-- No directive is dropped, and no file is refused. -/
  silent : r.diagnostics = []
  /-- A directive leads back to the symbol it is about. -/
  resolves : ∀ d ∈ plan.changed, p.symbolAt d.file d.pos = .ok d.symbol
  /-- Places to rename spell the old name, unless they are in quotes. -/
  spells : ∀ d ∈ plan.changed, ∀ l ∈ p.renameLocations d.symbol, l.kind ≠ .stringKey →
    ∃ content, sources l.file = some content ∧
      Text.slice content l.start.toNat l.stop.toNat = Text.encode d.oldName
  /-- All places together are without conflict. -/
  compatible : ∀ d ∈ plan.changed, ∀ d' ∈ plan.changed, ∀ l ∈ p.renameLocations d.symbol,
    ∀ l' ∈ p.renameLocations d'.symbol, d.symbol ≠ d'.symbol ∨ l ≠ l' → l.Compatible l'
  /-- A file with places is rewritten by edits of these places and no others. -/
  rewritten : ∀ file range, plan.Covers p file range → ∃ content edits,
    sources file = some content ∧
      Edit.normalize file content (Rename.editsIn (plan.changed.map (Renaming.item p)) file) =
        .ok edits ∧
      r.filesAt file = [FileResult.ofEdits file content edits] ∧
        ∀ range, range ∈ edits.map Edit.range ↔ plan.Covers p file range
  /-- Any other file is left alone. -/
  untouched : ∀ file, (∀ range, ¬ plan.Covers p file range) → r.filesAt file = []

theorem renames_of_mem_changed (hd : d ∈ plan.changed) : plan.Renames d.symbol :=
  ⟨d, (List.mem_filter.mp hd).1, rfl⟩

/-- What the directives of a plan say is so in the program that the plan was made for. -/
structure Placed (p : Program) (d : Renaming) : Prop where
  lt : d.symbol.idx < p.symbols.size
  declared : p.declared[d.decl]? = some d.symbol
  file : d.file = p.source.pathOf d.decl
  pos : d.pos = p.source.start d.decl
  oldName : d.oldName = (p.symbol d.symbol).name

theorem placed_of_mem_changed (hbuild : Program.build files = .ok p)
    (hsel : ∀ f ∈ sel, f ∈ p.source.fileIds)
    (hown : ((planMangle sel opts).value p).OwnsNames p)
    (hd : d ∈ ((planMangle sel opts).value p).changed) : Placed p d := by
  have hd := (List.mem_filter.mp hd).1
  obtain ⟨hfile, hpos, q, hq, hname⟩ := describes_planMangle hd
  obtain ⟨src, rfl, hs⟩ := Program.laidOut_of_build hbuild
  rw [Program.source_ofSource hs] at hsel
  have hbound := (Program.declSound_bound hs).declared (declared_of_mem_renamings hs hsel hd).1
  have hgrows := Program.grows_ofSource src
  have hlt := hbound.lt.trans_le hgrows.symbols_le
  refine ⟨hlt, hown.declared d.symbol ⟨d, hd, rfl⟩ d.decl ?_, hfile, hpos, ?_⟩
  · exact (hgrows.symbol _ hbound.lt).decls hbound.mem
  · rw [hname, (Program.Extends.symbol_kept hq hlt).name]

/-- A plan renames a symbol once. -/
theorem pairwise_changed (hbuild : Program.build files = .ok p)
    (hsel : ∀ f ∈ sel, f ∈ p.source.fileIds) :
    ((planMangle sel opts).value p).changed.Pairwise fun d d' => d.symbol ≠ d'.symbol := by
  obtain ⟨src, rfl, hs⟩ := Program.laidOut_of_build hbuild
  obtain ⟨⟨a, hsettled⟩, -⟩ := settled_planMangle opts (Program.wellScoped_ofSource hs)
    (Program.source_laidOut hbuild) hsel
  exact hsettled.sound.symbols.filter _

/-- **Everything that stands for a renamed symbol spells its name.** -/
theorem spells_of_renames (hbuild : Program.build files = .ok p) (hown : plan.OwnsNames p)
    (hs : plan.Renames s) (hn : p.StandsFor n s) : p.source.Spells n (p.symbol s).name := by
  rcases Program.spells_of_standsFor hbuild hn with hspells | ⟨hm, m, name, hexport, hspells⟩
  · exact hspells
  · rwa [← hown.exported s hs n hm m name hexport hspells]

/-- A place to rename is a name that stands for the symbol, and spells the name of it. -/
structure NamedAt (p : Program) (s : SymbolId) (l : Location) (n : NodeId) : Prop where
  stands : p.StandsFor n s
  location : p.locationOf s n = l
  written : p.source.WrittenAsName n
  spells : p.source.Spells n (p.symbol s).name

theorem exists_namedAt (hbuild : Program.build files = .ok p) (hshape : p.ParserShaped)
    (hsel : ∀ f ∈ sel, f ∈ p.source.fileIds)
    (hown : ((planMangle sel opts).value p).OwnsNames p)
    (hs : ((planMangle sel opts).value p).Renames s) (hl : l ∈ p.renameLocations s) :
    ∃ n, NamedAt p s l n := by
  obtain ⟨n, hmem, hloc⟩ := List.mem_map.mp hl
  have hn := Program.standsFor_of_mem_occurrences hbuild (hown.declared s hs)
    (List.mem_filter.mp hmem).1
  exact ⟨n, hn, hloc, hshape.names n s hn (Program.isAlias_of_renames hbuild hsel hs),
    spells_of_renames hbuild hown hs hn⟩

/-- **A directive leads back to its symbol.** -/
theorem symbolAt_of_placed (hbuild : Program.build files = .ok p) (hshape : p.ParserShaped)
    (halias : (p.symbol d.symbol).isAlias = false) (hd : Placed p d) :
    p.symbolAt d.file d.pos = .ok d.symbol := by
  rw [hd.file, hd.pos]
  exact Program.symbolAt_start hbuild hshape (hshape.names _ _ (.declares hd.declared) halias)
    hd.declared

/-- The declaration that a directive names is a place to rename. -/
theorem renameLocations_ne_nil (hbuild : Program.build files = .ok p) (hshape : p.ParserShaped)
    (halias : (p.symbol d.symbol).isAlias = false) (hd : Placed p d) :
    p.renameLocations d.symbol ≠ [] := by
  have hword := (hshape.names _ _ (.declares hd.declared) halias).kind
  simp only [Source.wordless, List.mem_cons, List.not_mem_nil, or_false, not_or] at hword
  obtain ⟨src, rfl, hs⟩ := Program.laidOut_of_build hbuild
  have hoccurs : d.decl ∈ (Program.ofSource src).occurrences d.symbol :=
    (Program.mem_occurrences (Program.exact_ofSource hs)).mpr
      (.inl (Program.declares_ofSource hs hd.declared).mem)
  exact List.ne_nil_of_mem (List.mem_map_of_mem
    (List.mem_filter.mpr ⟨hoccurs, by simp [Source.isKind, hword]⟩))

/-- A directive is looked up to all the places of its symbol. -/
theorem resolveOne_of_symbolAt (hfound : p.symbolAt d.file d.pos = .ok d.symbol)
    (hne : p.renameLocations d.symbol ≠ []) :
    Rename.resolveOne p.locate d.toDirective = .ok (d.item p) := by
  obtain ⟨l, ls, hls⟩ := List.exists_cons_of_ne_nil hne
  have hlocate : p.locate d.toDirective.file d.toDirective.pos = .ok (l :: ls) := by
    rw [Program.locate, Renaming.toDirective, hfound, Except.map, hls]
  rw [Rename.resolveOne, hlocate, Renaming.item, hls]
  rfl

/-- **The places of a plan are without conflict.** -/
theorem compatible_places (hbuild : Program.build files = .ok p) (hshape : p.ParserShaped)
    (hsel : ∀ f ∈ sel, f ∈ p.source.fileIds)
    (hown : ((planMangle sel opts).value p).OwnsNames p)
    (hd : ((planMangle sel opts).value p).Renames d.symbol)
    (hr : ((planMangle sel opts).value p).Renames r.symbol)
    (hl : l ∈ p.renameLocations d.symbol) (hl' : l' ∈ p.renameLocations r.symbol)
    (hne : d.symbol ≠ r.symbol ∨ l ≠ l') : l.Compatible l' := by
  obtain ⟨n, hn⟩ := exists_namedAt hbuild hshape hsel hown hd hl
  obtain ⟨m, hm⟩ := exists_namedAt hbuild hshape hsel hown hr hl'
  rw [← hn.location, ← hm.location]
  refine Program.compatible_locationOf hbuild hshape hsel hd hr hn.stands hm.stands ?_
  by_contra hsame
  simp only [not_or, not_not] at hsame
  obtain ⟨rfl, hsymbol⟩ := hsame
  refine hne.elim (· hsymbol) fun hne => hne ?_
  rw [← hn.location, ← hm.location, hsymbol]

/-- The places of one symbol are without conflict, as no node is an occurrence twice. -/
theorem pairwise_renameLocations (hbuild : Program.build files = .ok p) (hshape : p.ParserShaped)
    (hsel : ∀ f ∈ sel, f ∈ p.source.fileIds)
    (hown : ((planMangle sel opts).value p).OwnsNames p)
    (hs : ((planMangle sel opts).value p).Renames s) :
    (p.renameLocations s).Pairwise Location.Compatible := by
  have hnodup : (p.occurrences s).Nodup :=
    (List.mergeSort_perm _ _).nodup_iff.mpr (nodup_eraseDups _)
  have hstands {n : NodeId} (hn : n ∈ p.occurrences s) : p.StandsFor n s :=
    Program.standsFor_of_mem_occurrences hbuild (hown.declared s hs) hn
  rw [Program.renameLocations, List.pairwise_map]
  refine (hnodup.filter _).imp_of_mem fun hn hm hne => ?_
  exact Program.compatible_locationOf hbuild hshape hsel hs hs
    (hstands (List.mem_filter.mp hn).1) (hstands (List.mem_filter.mp hm).1) (.inl hne)

/-- **A place to rename lies in its file, and spells the old name** unless it is in quotes. -/
theorem fits_of_placed (hbuild : Program.build files = .ok p) (hshape : p.ParserShaped)
    (hsources : ∀ f ∈ p.source.fileIds,
      sources (p.source.file f).path = some (p.source.file f).contents)
    (hd : Placed p d) (hn : NamedAt p d.symbol l n) :
    ∃ content, sources l.file = some content ∧ Edit.Fits content (.ofLocation (d.item p) l) ∧
      (l.kind ≠ .stringKey →
        Text.slice content l.start.toNat l.stop.toNat = Text.encode d.oldName) := by
  have hlaid := Program.source_laidOut hbuild
  obtain ⟨hfile, -⟩ := hlaid.below_root n hn.written.lt_size
  have hpath : l.file = p.source.pathOf n := by rw [← hn.location, Program.locationOf_file]
  obtain ⟨hstart, hle, hstop, hspells⟩ :=
    Program.locationOf_spells hlaid hshape.nested hn.written hn.spells hn.location rfl
  rw [← hd.oldName] at hspells
  exact ⟨_, hpath ▸ hsources _ hfile, Edit.fits_of_replaced hstart hle hstop hspells, hspells⟩

/-- The ranges of the edits of a file are the places to rename in it. -/
theorem mem_ranges_iff {range : Int × Int} :
    range ∈ (Rename.editsIn (plan.changed.map (Renaming.item p)) file).map Edit.range ↔
      plan.Covers p file range := by
  simp only [List.mem_map, Rename.mem_editsIn, Covers]
  constructor
  · rintro ⟨_, ⟨_, ⟨d, hd, rfl⟩, -, l, hl, hfile, rfl⟩, rfl⟩
    exact ⟨d, hd, l, hl, hfile, rfl⟩
  · rintro ⟨d, hd, l, hl, hfile, rfl⟩
    have hne : d.target ≠ d.oldName := by
      have hchanged := (List.mem_filter.mp hd).2
      simp only [Renaming.isUnchanged, Bool.not_eq_true', beq_eq_false_iff_ne] at hchanged
      exact hchanged.symm
    exact ⟨_, ⟨_, ⟨d, hd, rfl⟩, hne, l, hl, hfile, rfl⟩, rfl⟩

/-- What is carried out for one program is so for another with the same places. -/
theorem CarriedOut.congr {r : RenameResult} (h : CarriedOut p plan sources r)
    (hsymbol : q.symbolAt = p.symbolAt)
    (hplaces : ∀ d ∈ plan.changed, q.renameLocations d.symbol = p.renameLocations d.symbol) :
    CarriedOut q plan sources r := by
  have hitems : plan.changed.map (Renaming.item q) = plan.changed.map (Renaming.item p) := by
    refine List.map_congr_left fun d hd => ?_
    rw [Renaming.item, Renaming.item, hplaces d hd]
  have hcovers (file : String) (range : Int × Int) :
      plan.Covers q file range ↔ plan.Covers p file range := by
    rw [← mem_ranges_iff, hitems, mem_ranges_iff]
  refine ⟨h.silent, fun d hd => by rw [hsymbol, h.resolves d hd], fun d hd l hl => ?_,
    fun d hd d' hd' l hl l' hl' => ?_, fun file range hrange => ?_, fun file hfile => ?_⟩
  · exact h.spells d hd l (hplaces d hd ▸ hl)
  · exact h.compatible d hd d' hd' l (hplaces d hd ▸ hl) l' (hplaces d' hd' ▸ hl')
  · simp only [hitems, hcovers] at hrange ⊢
    exact h.rewritten file range hrange
  · simp only [hcovers] at hfile
    exact h.untouched file hfile

/-- **The renames of a plan can be carried out.** -/
theorem feasible_changed (hbuild : Program.build files = .ok p) (hshape : p.ParserShaped)
    (hsel : ∀ f ∈ sel, f ∈ p.source.fileIds)
    (hsources : ∀ f ∈ p.source.fileIds,
      sources (p.source.file f).path = some (p.source.file f).contents)
    (hown : ((planMangle sel opts).value p).OwnsNames p) :
    Rename.Feasible sources (((planMangle sel opts).value p).changed.map (Renaming.item p)) where
  fits i hi l hl := by
    obtain ⟨d, hd, rfl⟩ := List.mem_map.mp hi
    obtain ⟨n, hn⟩ := exists_namedAt hbuild hshape hsel hown (renames_of_mem_changed hd) hl
    obtain ⟨content, hsource, hfits, -⟩ := fits_of_placed hbuild hshape hsources
      (placed_of_mem_changed hbuild hsel hown hd) hn
    exact ⟨content, hsource, hfits⟩
  within i hi := by
    obtain ⟨d, hd, rfl⟩ := List.mem_map.mp hi
    exact pairwise_renameLocations hbuild hshape hsel hown (renames_of_mem_changed hd)
  across := by
    refine List.pairwise_map.mpr ((pairwise_changed hbuild hsel).imp_of_mem ?_)
    intro d d' hd hd' hne l hl l' hl'
    exact compatible_places hbuild hshape hsel hown (renames_of_mem_changed hd)
      (renames_of_mem_changed hd') hl hl' (.inl hne)

/-- Renames of the places of a plan carry it out. -/
theorem carriedOut_apply (hbuild : Program.build files = .ok p) (hshape : p.ParserShaped)
    (hsel : ∀ f ∈ sel, f ∈ p.source.fileIds)
    (hsources : ∀ f ∈ p.source.fileIds,
      sources (p.source.file f).path = some (p.source.file f).contents)
    (hplan : (planMangle sel opts).value p = plan) (hown : plan.OwnsNames p) :
    CarriedOut p plan sources (Rename.apply sources (plan.changed.map (Renaming.item p))) := by
  subst hplan
  have hfeasible := feasible_changed hbuild hshape hsel hsources hown
  refine ⟨hfeasible.diagnostics_eq_nil, fun d hd => ?_, fun d hd l hl hkind => ?_,
    fun d hd d' hd' l hl l' hl' => ?_, fun file range hrange => ?_, fun file hnone => ?_⟩
  · exact symbolAt_of_placed hbuild hshape
      (Program.isAlias_of_renames hbuild hsel (renames_of_mem_changed hd))
      (placed_of_mem_changed hbuild hsel hown hd)
  · obtain ⟨n, hn⟩ := exists_namedAt hbuild hshape hsel hown (renames_of_mem_changed hd) hl
    obtain ⟨content, hsource, -, hspells⟩ := fits_of_placed hbuild hshape hsources
      (placed_of_mem_changed hbuild hsel hown hd) hn
    exact ⟨content, hsource, hspells hkind⟩
  · exact compatible_places hbuild hshape hsel hown (renames_of_mem_changed hd)
      (renames_of_mem_changed hd') hl hl'
  · obtain ⟨e, he, -⟩ := List.mem_map.mp (mem_ranges_iff.mpr hrange)
    obtain ⟨content, edits, hsource, hedits, hfiles, -⟩ :=
      hfeasible.rewritten (Rename.touches_iff_editsIn_ne_nil.mpr (List.ne_nil_of_mem he))
    refine ⟨content, edits, hsource, hedits, hfiles, fun range => ?_⟩
    rw [(Edit.checked_normalize hedits).ranges, mem_ranges_iff]
  · refine (Rename.untouched fun ⟨_, hi, _, l, hl, hfile⟩ => ?_).1
    obtain ⟨d, hd, rfl⟩ := List.mem_map.mp hi
    exact hnone (l.start, l.stop) ⟨d, hd, l, hl, hfile, rfl⟩

end ManglePlan

section

variable {p : Program} {sel : List FileId} {files : List ParsedFile}
  {sources : String → Option ByteArray}

/-- **A plan is carried out as it stands.** -/
theorem carriedOut_mangle (hbuild : Program.build files = .ok p) (hshape : p.ParserShaped)
    (hsel : ∀ f ∈ sel, f ∈ p.source.fileIds) (opts : MangleOptions)
    (hsources : ∀ f ∈ p.source.fileIds,
      sources (p.source.file f).path = some (p.source.file f).contents)
    (hown : ((planMangle sel opts).value p).OwnsNames p) :
    ((mangle sources Program.locate sel opts).value p).plan.CarriedOut
      ((mangle sources Program.locate sel opts).after p) sources
      ((mangle sources Program.locate sel opts).value p).renames := by
  have hasked : Program.Asked p ((planMangle sel opts).after p) := planMangle_inquires sel opts p
  generalize hplan : (planMangle sel opts).value p = plan at hown
  generalize hq : (planMangle sel opts).after p = q at hasked
  have hmangle : (mangle sources Program.locate sel opts).value p =
      ⟨plan, Rename.run sources q.locate (plan.changed.map Renaming.toDirective)⟩ := by
    rw [← hplan, ← hq]
    rfl
  have hafter : (mangle sources Program.locate sel opts).after p = q := hq
  have hcarried := ManglePlan.carriedOut_apply hbuild hshape hsel hsources hplan hown
  -- What the program is asked afterwards has the answers it had before.
  have hsame := Program.sameOccurrences_asked hbuild hasked
  have hsymbol := Program.symbolAt_asked hasked hsame
  have hplaced : ∀ d ∈ plan.changed, ManglePlan.Placed p d := fun d hd =>
    ManglePlan.placed_of_mem_changed hbuild hsel (hplan ▸ hown) (hplan ▸ hd)
  have hplaces : ∀ d ∈ plan.changed, q.renameLocations d.symbol = p.renameLocations d.symbol :=
    fun d hd => hsame.renameLocations _ (hplaced d hd).lt
  have hfound : ∀ d ∈ plan.changed,
      Rename.resolveOne q.locate d.toDirective = .ok (d.item p) := by
    intro d hd
    have halias := Program.isAlias_of_renames hbuild hsel
      (hplan ▸ ManglePlan.renames_of_mem_changed hd)
    have hne := ManglePlan.renameLocations_ne_nil hbuild hshape halias (hplaced d hd)
    rw [Renaming.item, ← hplaces d hd]
    exact ManglePlan.resolveOne_of_symbolAt (hsymbol ▸ hcarried.resolves d hd) (hplaces d hd ▸ hne)
  rw [hmangle, hafter, Rename.run_of_found hfound]
  exact hcarried.congr hsymbol hplaces

end

/-! ### A function that returns what it is given -/

/-- A function that returns what it is given. -/
def echo : ParsedFile where
  path := "echo.ts"
  contents := "num => num".toUTF8
  tree :=
    .node "program" "" true 0 10 [
      .node "expression_statement" "" true 0 10 [
        .node "arrow_function" "" true 0 10 [
          .node "identifier" "parameter" true 0 3 [],
          .node "=>" "" false 4 6 [],
          .node "identifier" "body" true 7 10 []]]]

namespace Echo

/-- The file as it is laid out. -/
def source : Source := ({} : Source).add (Path.clean echo.path) echo.contents echo.tree

theorem laidOut : source.LaidOut := Source.laidOut_empty.add

/-- What is true of the nodes that are there, and of any that is not, is true of all. -/
theorem forall_node {P : NodeId → Prop} (hin : ∀ i < 6, P ⟨i⟩)
    (hout : ∀ n, source.node n = default → P n) (n : NodeId) : P n := by
  by_cases hn : n.idx < 6
  · exact hin n.idx hn
  · exact hout n (Source.node_of_size_le (not_lt.mp hn))

variable {n o : NodeId} {s : SymbolId} {kinds : List String}

/-- The kinds of the nodes. -/
def allKinds : List String :=
  ["program", "expression_statement", "arrow_function", "identifier", "=>", ""]

theorem kind_mem : ∀ n, source.kind n ∈ allKinds := by
  refine forall_node (by decide) fun n hn => ?_
  rw [Source.kind, hn]
  decide

theorem kind_notMem (hkinds : ∀ k ∈ kinds, k ∉ allKinds) : source.kind n ∉ kinds :=
  fun h => hkinds _ h (kind_mem n)

theorem kind_ne {kind : String} (hkind : kind ∉ allKinds) : source.kind n ≠ kind :=
  fun h => hkind (h ▸ kind_mem n)

/-- Of the kinds that say something about names there is only that of the function. -/
theorem eq_function (h : source.kind o ∈ kinds)
    (hkinds : ∀ k ∈ kinds, k ∈ allKinds → k = "arrow_function") : o = ⟨2⟩ := by
  have hfunction : ∀ o, source.kind o = "arrow_function" → o = ⟨2⟩ := by
    refine forall_node (by decide) fun o ho hkind => ?_
    rw [Source.kind, ho] at hkind
    exact absurd hkind (by decide)
  exact hfunction o (hkinds _ h (kind_mem o))

/-- Only the parameter and the body can be looked up. -/
theorem eq_of_kind : ∀ n, source.kind n ∈ References.typeKind :: References.valueKinds →
    n = ⟨3⟩ ∨ n = ⟨5⟩ := by
  refine forall_node (by decide) fun n hn hkind => ?_
  rw [Source.kind, hn] at hkind
  exact absurd hkind (by decide)

theorem nested : source.Nested where
  inside := by
    refine forall_node (by decide) fun n hn => ?_
    rw [Source.children, hn]
    exact fun _ h => absurd h List.not_mem_nil
  inOrder := by
    refine forall_node (by decide) fun n hn => ?_
    rw [Source.children, hn]
    exact .nil
  inFile := by decide
  tokens := by
    refine forall_node (by decide) fun n hn _ => ?_
    rw [Source.children, hn]
    rfl

theorem not_isMemberUse : ¬ source.IsMemberUse n := by
  intro h
  cases h with
  | access o _ hkind | index o _ hkind | pairPart o _ hkind | qualified o _ hkind =>
    exact kind_ne (by decide) hkind
  | part _ hkind => exact kind_ne (by decide) hkind
  | lookup o _ hkind => exact hkind.elim (kind_ne (by decide)) (kind_ne (by decide))
  | literal _ h =>
    cases h with
    | shorthand o _ hkind | pair o _ _ hkind | method o _ _ hkind =>
      exact kind_ne (by decide) hkind

theorem field_ne_parameters : ∀ n, source.field n ≠ "parameters" := by
  refine forall_node (by decide) fun n hn => ?_
  rw [Source.field, hn]
  decide

theorem phrased : source.Phrased where
  properties _ h := absurd h not_isMemberUse
  parameters n h := absurd h (field_ne_parameters n)
  classBody o _ h := absurd h (kind_notMem (by decide))
  enumBody o _ h := absurd h (kind_ne (by decide))

theorem writtenAsName (h : n = ⟨3⟩ ∨ n = ⟨5⟩) : source.WrittenAsName n := by
  have hbytes : source.bytes n = Text.encode "num" := by
    rcases h with rfl | rfl <;> decide
  have htext : source.text n = "num" := by rw [Source.text, hbytes, Text.decode_encode]
  have hkind : source.kind n = "identifier" := by
    rcases h with rfl | rfl <;> decide
  refine ⟨?_, ?_, by rw [hkind]; decide, by rw [htext, hbytes], fun _ => ⟨?_, ?_⟩, fun h => ?_⟩
  · rcases h with rfl | rfl <;> decide
  · rcases h with rfl | rfl <;> decide
  · rcases h with rfl | rfl <;> decide
  · rw [htext]
    simp [quoteMarks]
  · exact absurd (hkind.symm.trans h) (by decide)

/-- Only the parameter is where a name is declared. -/
theorem eq_of_declaring (h : source.Declaring n) : n = ⟨3⟩ := by
  rcases h with ⟨_, h⟩ | h
  · cases h with
    | name o _ hkind hname =>
      rw [eq_function hkind (by decide)] at hname
      exact nomatch (rfl : source.child? ⟨2⟩ "name" = none).symm.trans hname
    | namespace_ o _ hkind => exact absurd hkind (kind_notMem (by decide))
    | head o _ hkind | inferred o _ hkind => exact absurd hkind (kind_ne (by decide))
    | parameter o _ hkind hn hfield =>
      rw [eq_function hkind (by decide)] at hn
      have hfirst : ∀ n ∈ source.children ⟨2⟩, source.field n = "parameter" → n = ⟨3⟩ := by decide
      exact hfirst n hn hfield
    | pattern _ hholds =>
      obtain ⟨o, -, hkind | hfield⟩ := hholds
      · exact absurd hkind (kind_notMem (by decide))
      · exact absurd hfield (field_ne_parameters o)
  · cases h with
    | member o _ hkind | method o _ _ _ hkind => exact absurd hkind (kind_notMem (by decide))
    | enumerator o _ _ hkind | assigned o _ hkind => exact absurd hkind (kind_ne (by decide))

theorem eq_of_declared (h : (Program.bound source).declared[n]? = some s) : n = ⟨3⟩ := by
  cases Program.entitles_of_declared laidOut h with
  | lexical _ hplace => exact eq_of_declaring (.inl ⟨_, hplace⟩)
  | member hplace => exact eq_of_declaring (.inr hplace)
  | alias_ hplace =>
    obtain ⟨o, -, hkind⟩ := hplace
    exact absurd hkind (kind_notMem (by decide))

/-- No types are worked out that would let anything else be declared. -/
theorem declared_source (n : NodeId) :
    (Program.ofSource source).declared[n]? = (Program.bound source).declared[n]? :=
  Program.declared_ofSource fun h => not_isMemberUse (.literal n h)

theorem parserShaped : (Program.ofSource source).ParserShaped where
  nested := by rw [Program.source_ofSource laidOut]; exact nested
  phrased := by rw [Program.source_ofSource laidOut]; exact phrased
  names n s hn _ := by
    rw [Program.source_ofSource laidOut]
    refine writtenAsName ?_
    cases hn with
    | declares h => exact .inl (eq_of_declared ((declared_source n).symm.trans h))
    | accesses h => exact absurd (Program.isMemberUse_ofSource laidOut h) not_isMemberUse
    | refers h =>
      have huse := Program.uses_of_referenced laidOut h
      rw [References.Uses, Program.source_bound laidOut] at huse
      exact eq_of_kind n (huse.elim (fun h => List.mem_cons_of_mem _ h.1)
        fun h => h.1 ▸ List.mem_cons_self)

/-- Whatever a plan renames here, the parameter is all that it declares. -/
theorem ownsNames {sel : List FileId} {opts : MangleOptions}
    (hsel : ∀ f ∈ sel, f ∈ source.fileIds) :
    ((planMangle sel opts).value (Program.ofSource source)).OwnsNames (Program.ofSource source) where
  declared s hs n hn := by
    obtain ⟨⟨d, hd⟩, -⟩ := ManglePlan.declared_of_renames laidOut hsel hs
    have hplace : source.Declaring n :=
      (ManglePlan.place_of_renames laidOut hsel hs hn).imp (⟨_, ·⟩) And.left
    rw [declared_source, eq_of_declaring hplace, ← eq_of_declared hd]
    exact hd
  exported _ _ n hn := absurd (Program.isMemberUse_ofSource laidOut hn) not_isMemberUse

end Echo

theorem carriedOut_mangle_echo : ∃ p, Program.build [echo] = .ok p ∧
    ((mangle (fun _ => some echo.contents) Program.locate [⟨0⟩] {}).value p).plan.CarriedOut
      ((mangle (fun _ => some echo.contents) Program.locate [⟨0⟩] {}).after p)
      (fun _ => some echo.contents)
      ((mangle (fun _ => some echo.contents) Program.locate [⟨0⟩] {}).value p).renames := by
  have hsource := Program.source_ofSource Echo.laidOut
  have hsel : ∀ f ∈ [⟨0⟩], f ∈ Echo.source.fileIds := by decide
  refine ⟨_, Program.build_singleton echo, carriedOut_mangle (Program.build_singleton echo)
    Echo.parserShaped ?_ {} ?_ (Echo.ownsNames hsel)⟩
  · exact hsource ▸ hsel
  · exact hsource ▸ (by decide : ∀ f ∈ Echo.source.fileIds,
      some echo.contents = some (Echo.source.file f).contents)

end Moniker
