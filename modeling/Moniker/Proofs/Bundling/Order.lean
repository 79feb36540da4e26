/-
# The order of a bundle

Whatever a copied declaration needs stands above it, and nothing is copied twice
(`inOrder_bundle`).  `Written` says what the lines of a state have to do with the names of
the targets; a request adds to both (`Addition`), and what it needs is settled by then.

A statement that declares several variables is copied once, for the first of them that is
asked for by its own name.  The line that copies it introduces the other ones as well.
-/

import Moniker.Proofs.Bundling.Traversal

namespace Moniker
namespace Bundle

variable {p : Program} {entry : FileId} {s s' : State} {r : Request} {sh : Shape} {t u : SymbolId}
  {name : String} {l l' : Line} {ls ls' : List Line}

namespace Line

/-- The line makes a target available under a name. -/
def Introduces (p : Program) (name : String) (t : SymbolId) : Line → Prop
  | declaration _ d =>
    ∃ k, k ≠ .defaultValue ∧ shapeOf? p t = some ⟨k, d⟩ ∧ name = (p.symbol t).name
  | value localName u _ => localName = name ∧ u = t
  | another localName u _ => localName = name ∧ u = t
  | kept _ => False

/-- The target a line copies the declaration of, and the declaration. -/
def copied? : Line → Option (SymbolId × NodeId)
  | declaration t d => some (t, d)
  | value _ t d => some (t, d)
  | another .. => none
  | kept _ => none

/-- The statement that a line copies as it is written. -/
def statement? : Line → Option NodeId
  | declaration _ d => some d
  | _ => none

theorem mem_statements {d : NodeId} :
    d ∈ ls.filterMap statement? ↔ ∃ u, declaration u d ∈ ls := by
  rw [List.mem_filterMap]
  constructor
  · rintro ⟨l, hl, hd⟩
    cases l with
    | declaration u d' =>
      obtain rfl := Option.some.inj hd
      exact ⟨u, hl⟩
    | _ => cases hd
  · rintro ⟨u, hu⟩
    exact ⟨_, hu, rfl⟩

/-- A line can stand below other ones: what it copies is the declaration of its target, the
needs of the declaration are introduced above, and so is the name it refers to. -/
structure Backed (p : Program) (entry : FileId) (above : List Line) (l : Line) : Prop where
  shape : ∀ t d, l.copied? = some (t, d) → ∃ k, shapeOf? p t = some ⟨k, d⟩
  needs : ∀ t d, l.copied? = some (t, d) → ∀ r ∈ needs p entry d,
    (shapeOf? p r.target).isSome = true → ∃ l' ∈ above, l'.Introduces p r.localName r.target
  known : ∀ localName t known, l = .another localName t known →
    ∃ l' ∈ above, l'.Introduces p known t

end Line

/-- Every line is backed by those above it. -/
def Ordered (p : Program) (entry : FileId) (ls : List Line) : Prop :=
  ∀ above l below, ls = above ++ l :: below → l.Backed p entry above

theorem Ordered.nil : Ordered p entry [] := by
  intro above l below h
  cases above <;> cases h

theorem Ordered.append (h : Ordered p entry ls) (hl : l.Backed p entry ls) :
    Ordered p entry (ls ++ [l]) := by
  intro above l' below heq
  rcases List.eq_nil_or_concat below with rfl | ⟨below', l'', rfl⟩
  · obtain ⟨habove, hlast⟩ := List.append_inj' heq rfl
    rw [← habove, ← List.singleton_inj.mp hlast]
    exact hl
  · rw [List.concat_eq_append, ← List.cons_append, ← List.append_assoc] at heq
    exact h above l' below' (List.append_inj' heq rfl).1

/-- What the lines of a state have to do with the names of the targets. -/
structure Written (p : Program) (entry : FileId) (s : State) : Prop where
  introduced : ∀ t, ∀ name ∈ s.namesOf t, ∃ l ∈ s.lines.toList, l.Introduces p name t
  emitted_iff : ∀ d, s.emitted.contains d = true ↔ d ∈ s.lines.toList.filterMap Line.statement?
  ordered : Ordered p entry s.lines.toList
  named : ∀ t, t ∈ (s.lines.toList.filterMap Line.copied?).map Prod.fst → s.namesOf t ≠ []
  once : ((s.lines.toList.filterMap Line.copied?).map Prod.fst).Nodup
  statements : (s.lines.toList.filterMap Line.statement?).Nodup
  hoisted : (s.hoists.map fun x => (x.1, x.2.localName)).Nodup
  hoisted_named : ∀ x ∈ s.hoists, x.2.localName ∈ s.namesOf x.1

/-- A statement that has been copied introduces everything it declares. -/
theorem Written.introduced_of_emitted (h : Written p entry s) (hsh : shapeOf? p t = some sh)
    (hkind : sh.kind ≠ .defaultValue) (he : s.emitted.contains sh.decl = true) :
    ∃ l ∈ s.lines.toList, l.Introduces p (p.symbol t).name t := by
  obtain ⟨u, hu⟩ := Line.mem_statements.mp ((h.emitted_iff _).mp he)
  exact ⟨_, hu, sh.kind, hkind, hsh, rfl⟩

namespace Addition

variable {ns : List String}

/-- An addition copies nothing, or the declaration of a target that has no name yet. -/
theorem copied (h : Addition p s r sh ls ns) : ls.filterMap Line.copied? = [] ∨
    (ls.filterMap Line.copied? = [(r.target, sh.decl)] ∧ s.namesOf r.target = []) := by
  cases h with
  | stated => exact .inl rfl
  | again => exact .inl rfl
  | declared _ _ hnew => exact .inr ⟨rfl, hnew⟩
  | value _ _ hnew => exact .inr ⟨rfl, hnew⟩
  | renamed => exact .inl rfl
  | both _ _ _ hnew => exact .inr ⟨rfl, hnew⟩

/-- An addition copies no statement, or one that has not been copied. -/
theorem statements (h : Addition p s r sh ls ns) : ls.filterMap Line.statement? = [] ∨
    (ls.filterMap Line.statement? = [sh.decl] ∧ s.emitted.contains sh.decl = false) := by
  cases h with
  | stated => exact .inl rfl
  | again => exact .inl rfl
  | declared _ he => exact .inr ⟨rfl, he⟩
  | value => exact .inl rfl
  | renamed => exact .inl rfl
  | both _ _ he => exact .inr ⟨rfl, he⟩

variable (hs : Written p entry s) (hsh : shapeOf? p r.target = some sh)
include hs hsh

/-- The names of an addition are introduced by its lines, or by those before. -/
theorem introduced (h : Addition p s r sh ls ns) :
    ∀ name ∈ ns, ∃ l ∈ s.lines.toList ++ ls, l.Introduces p name r.target := by
  have hlast : ∀ {l ls}, l.Introduces p r.localName r.target →
      ∃ l' ∈ s.lines.toList ++ (ls ++ [l]), l'.Introduces p r.localName r.target := fun hl =>
    ⟨_, List.mem_append_right _ (List.mem_append_right _ List.mem_cons_self), hl⟩
  intro name hname
  cases h with
  | stated hown he =>
    obtain rfl := List.mem_singleton.mp hname
    obtain ⟨l, hl, hintroduces⟩ := hs.introduced_of_emitted hsh hown.1 he
    rw [hown.2]
    exact ⟨l, List.mem_append_left _ hl, hintroduces⟩
  | again =>
    obtain rfl := List.mem_singleton.mp hname
    exact @hlast _ [] ⟨rfl, rfl⟩
  | declared hown =>
    obtain rfl := List.mem_singleton.mp hname
    exact @hlast _ [] ⟨sh.kind, hown.1, hsh, hown.2⟩
  | value =>
    obtain rfl := List.mem_singleton.mp hname
    exact @hlast _ [] ⟨rfl, rfl⟩
  | renamed =>
    obtain rfl := List.mem_singleton.mp hname
    exact @hlast _ [] ⟨rfl, rfl⟩
  | both hkind =>
    rcases List.mem_cons.mp hname with rfl | hname
    · refine ⟨_, List.mem_append_right _ List.mem_cons_self, sh.kind, ?_, hsh, rfl⟩
      rw [hkind]
      exact nofun
    · obtain rfl := List.mem_singleton.mp hname
      exact @hlast _ [_] ⟨rfl, rfl⟩

/-- The lines of an addition are backed by those before, if the needs of the declaration
are settled. -/
theorem ordered (h : Addition p s r sh ls ns)
    (hneeds : ∀ dep ∈ needs p entry sh.decl, Settled p s dep) :
    Ordered p entry (s.lines.toList ++ ls) := by
  have hcopy : ∀ {l : Line}, l.copied? = some (r.target, sh.decl) →
      (∀ name t known, l ≠ .another name t known) → l.Backed p entry s.lines.toList := by
    intro l hl hnot
    refine ⟨fun t d h => ?_, fun t d h dep hdep hsome => ?_, fun name t known h => ?_⟩
    · obtain ⟨rfl, rfl⟩ := Prod.mk.inj (Option.some.inj (hl.symm.trans h))
      exact ⟨sh.kind, hsh⟩
    · obtain ⟨rfl, rfl⟩ := Prod.mk.inj (Option.some.inj (hl.symm.trans h))
      obtain hname | ⟨hnone, -⟩ := hneeds dep hdep
      · exact hs.introduced _ _ hname
      · rw [hnone] at hsome
        cases hsome
    · exact absurd h (hnot name t known)
  have hanother : ∀ {ls known}, (∃ l ∈ ls, l.Introduces p known r.target) →
      (Line.another r.localName r.target known).Backed p entry ls := by
    intro ls known hknown
    refine ⟨nofun, nofun, ?_⟩
    rintro _ _ _ ⟨⟩
    exact hknown
  cases h with
  | stated =>
    rw [List.append_nil]
    exact hs.ordered
  | again hknown =>
    exact hs.ordered.append (hanother (hs.introduced _ _ (hknown ▸ List.mem_cons_self)))
  | declared => exact hs.ordered.append (hcopy rfl nofun)
  | value => exact hs.ordered.append (hcopy rfl nofun)
  | renamed hkind he =>
    refine hs.ordered.append (hanother (hs.introduced_of_emitted hsh ?_ he))
    rw [hkind]
    exact nofun
  | both hkind =>
    have hdeclared := hs.ordered.append (hcopy (l := .declaration r.target sh.decl) rfl nofun)
    have hknown : (Line.declaration r.target sh.decl).Introduces p (p.symbol r.target).name
        r.target := by
      refine ⟨sh.kind, ?_, hsh, rfl⟩
      rw [hkind]
      exact nofun
    have hall := hdeclared.append
      (hanother ⟨_, List.mem_append_right _ List.mem_cons_self, hknown⟩)
    rwa [List.append_assoc] at hall

end Addition

/-- A list stays without duplicates if at most one new element is added. -/
theorem nodup_append_of_new {α : Type} {xs ys : List α} (h : xs.Nodup)
    (hys : ys = [] ∨ ∃ y, ys = [y] ∧ y ∉ xs) : (xs ++ ys).Nodup := by
  obtain rfl | ⟨y, rfl, hy⟩ := hys
  · rwa [List.append_nil]
  · refine List.nodup_append.mpr ⟨h, List.nodup_singleton y, fun x hx z hz heq => hy ?_⟩
    rwa [← List.mem_singleton.mp hz, ← heq]

/-- **A request adds to what is written, once the needs of its target are settled.** -/
theorem Written.bind (h : Written p entry s) (hsh : shapeOf? p r.target = some sh)
    (hneeds : ∀ dep ∈ needs p entry sh.decl, Settled p s dep) :
    Written p entry (s.bind p r sh) := by
  by_cases hr : r.localName ∈ s.namesOf r.target
  · unfold State.bind
    rwa [if_pos (by simpa using hr)]
  obtain ⟨ls, ns, hadd, hlines, hnames, hemitted, hhoists⟩ := @bind_adds p s r sh hr
  refine ⟨?_, ?_, ?_, ?_, ?_, ?_, ?_, ?_⟩
  · intro t name hname
    rw [hlines]
    rw [hnames] at hname
    rcases List.mem_append.mp hname with hname | hname
    · obtain ⟨l, hl, hintroduces⟩ := h.introduced t name hname
      exact ⟨l, List.mem_append_left _ hl, hintroduces⟩
    · split at hname
      · next ht => exact ht ▸ hadd.introduced h hsh name hname
      · cases hname
  · intro d
    rw [hemitted, hlines, List.filterMap_append, List.mem_append, @Line.mem_statements ls,
      h.emitted_iff]
  · rw [hlines]
    exact hadd.ordered h hsh hneeds
  · intro t ht
    rw [hlines, List.filterMap_append, List.map_append] at ht
    rcases List.mem_append.mp ht with ht | ht
    · obtain ⟨name, hname⟩ := List.exists_mem_of_ne_nil _ (h.named t ht)
      exact List.ne_nil_of_mem (State.mem_namesOf_bind hname)
    · obtain hnone | ⟨hone, -⟩ := hadd.copied
      · rw [hnone] at ht
        cases ht
      · rw [hone] at ht
        obtain rfl := List.mem_singleton.mp ht
        exact List.ne_nil_of_mem State.localName_mem_bind
  · rw [hlines, List.filterMap_append, List.map_append]
    refine nodup_append_of_new h.once ?_
    obtain hnone | ⟨hone, hnew⟩ := hadd.copied
    · exact .inl (by rw [hnone]; rfl)
    · exact .inr ⟨r.target, by rw [hone]; rfl, fun hmem => h.named _ hmem hnew⟩
  · rw [hlines, List.filterMap_append]
    refine nodup_append_of_new h.statements ?_
    obtain hnone | ⟨hone, hnew⟩ := hadd.statements
    · exact .inl hnone
    · refine .inr ⟨sh.decl, hone, fun hmem => ?_⟩
      rw [(h.emitted_iff _).mpr hmem] at hnew
      cases hnew
  · rw [hhoists, List.map_append]
    refine nodup_append_of_new h.hoisted (.inr ⟨(r.target, r.localName), rfl, fun hmem => hr ?_⟩)
    obtain ⟨⟨t, hoisted⟩, hmem, heq⟩ := List.mem_map.mp hmem
    obtain ⟨rfl, hlocal⟩ := Prod.mk.inj heq
    exact hlocal ▸ h.hoisted_named _ hmem
  · intro x hx
    rw [hhoists] at hx
    rcases List.mem_append.mp hx with hx | hx
    · exact State.mem_namesOf_bind (h.hoisted_named x hx)
    · rw [List.mem_singleton.mp hx]
      exact State.localName_mem_bind

namespace Written

theorem start (p : Program) (entry : FileId) : Written p entry (.start p entry) where
  introduced t name h := by simp [State.start, State.namesOf] at h
  emitted_iff d := by simp [State.start]
  ordered := .nil
  named t h := nomatch h
  once := .nil
  statements := .nil
  hoisted := .nil
  hoisted_named x h := nomatch h

/-- A line that is kept copies nothing. -/
theorem keep (h : Written p entry s) (text : String) : Written p entry (s.keepImport text) := by
  unfold State.keepImport
  split
  · exact h
  have hlines : (s.lines.push (.kept text)).toList = s.lines.toList ++ [.kept text] :=
    Array.toList_push
  have hcopied : (s.lines.push (.kept text)).toList.filterMap Line.copied? =
      s.lines.toList.filterMap Line.copied? := by
    rw [hlines, List.filterMap_append]
    exact List.append_nil _
  have hstatements : (s.lines.push (.kept text)).toList.filterMap Line.statement? =
      s.lines.toList.filterMap Line.statement? := by
    rw [hlines, List.filterMap_append]
    exact List.append_nil _
  refine ⟨?_, ?_, ?_, ?_, ?_, ?_, h.hoisted, h.hoisted_named⟩
  · intro t name hname
    obtain ⟨l, hl, hintroduces⟩ := h.introduced t name hname
    exact ⟨l, hlines ▸ List.mem_append_left _ hl, hintroduces⟩
  · intro d
    exact (h.emitted_iff d).trans (by rw [← hstatements]; rfl)
  · exact hlines ▸ h.ordered.append ⟨nofun, nofun, nofun⟩
  · intro t ht
    exact h.named t (hcopied ▸ ht)
  · exact hcopied ▸ h.once
  · exact hstatements ▸ h.statements

/-- The lines, names and copies stay the same. -/
theorem of_same (h : Written p entry s) (hlines : s'.lines = s.lines) (hbound : s'.bound = s.bound)
    (hemitted : s'.emitted = s.emitted) (hhoists : s'.hoists = s.hoists) : Written p entry s' := by
  have hnames : ∀ t, s'.namesOf t = s.namesOf t := fun t => by
    rw [State.namesOf, hbound]
    rfl
  refine ⟨?_, ?_, ?_, ?_, ?_, ?_, ?_, ?_⟩
  · simpa only [hlines, hnames] using h.introduced
  · simpa only [hlines, hemitted] using h.emitted_iff
  · simpa only [hlines] using h.ordered
  · simpa only [hlines, hnames] using h.named
  · simpa only [hlines] using h.once
  · simpa only [hlines] using h.statements
  · simpa only [hhoists] using h.hoisted
  · simpa only [hhoists, hnames] using h.hoisted_named

theorem warn (h : Written p entry s) (d : Diagnostic) : Written p entry (s.warn d) :=
  h.of_same rfl rfl rfl State.hoists_warn

theorem serve (h : Written p entry s) {cur : Option Request} (hsound : Sound p entry cur s)
    (hs : Serves p entry s r s') : Written p entry s' := by
  cases hs with
  | @known sh hknown =>
    exact h.bind (hsound.shape _ _ hknown) (hsound.supplied _ _ hknown).settled
  | opened => exact h.of_same rfl rfl rfl rfl
  | refused => exact h.warn _

/-- **Every step keeps what is written in order.** -/
theorem step (h : Written p entry s) (hsound : Sound p entry none s) (hs : Step p entry s s') :
    Written p entry s' := by
  cases hs with
  | remark hs =>
    cases hs with
    | warn => exact h.warn _
    | keep text => exact h.keep text
  | ask _ _ hs => exact h.serve hsound hs
  | @need top rest dep deps _ hstack hp hs =>
    have hrestacked : Written p entry { s with stack := { top with pending := deps } :: rest } :=
      h.of_same rfl rfl rfl rfl
    exact hrestacked.serve (hsound.need hstack hp) hs
  | @close top rest hstack hp =>
    obtain ⟨hshape, hsupplied⟩ := hsound.closing hstack hp
    have hclosed : Written p entry { s with
        stack := rest
        progress := s.progress.insert top.request.target (.inlined top.shape) } :=
      h.of_same rfl rfl rfl rfl
    exact hclosed.bind hshape hsupplied.settled

theorem steps (h : Written p entry s) (hsound : Sound p entry none s) (hs : Steps p entry s s') :
    Written p entry s' := by
  induction hs with
  | refl => exact h
  | tail hsteps hstep ih => exact ih.step (hsound.steps hsteps) hstep

end Written

/-! ### A bundle that succeeds -/

/-- What it means that a bundle is in order when it ends. -/
structure InOrder (p : Program) (entry : FileId) (s : State) : Prop where
  /-- No frame is open, and every target that was entered is copied. -/
  stack : s.stack = []
  inlined : ∀ t, s.progressOf t ≠ .unvisited →
    ∃ sh, s.progressOf t = .inlined sh ∧ shapeOf? p t = some sh
  /-- Whatever is asked for and can be copied was entered. -/
  asked : ∀ r, Asked p entry r → (shapeOf? p r.target).isSome = true →
    s.progressOf r.target ≠ .unvisited
  needed : ∀ t sh, s.progressOf t = .inlined sh → ∀ r ∈ needs p entry sh.decl,
    (shapeOf? p r.target).isSome = true → s.progressOf r.target ≠ .unvisited
  /-- The declaration of a target is copied once, and so is a statement that declares
  several. -/
  once : ((s.lines.toList.filterMap Line.copied?).map Prod.fst).Nodup
  statements : (s.lines.toList.filterMap Line.statement?).Nodup
  /-- No target is reported twice under a name. -/
  hoisted : (s.hoists.map fun x => (x.1, x.2.localName)).Nodup
  /-- What a copied declaration needs is introduced above it. -/
  ordered : Ordered p entry s.lines.toList

/-- A need that is settled and can be copied has been entered. -/
theorem Settled.entered (h : Settled p s r) (hsound : Sound p entry none s)
    (hsome : (shapeOf? p r.target).isSome = true) : s.progressOf r.target ≠ .unvisited := by
  obtain hname | ⟨hnone, -⟩ := h
  · obtain ⟨sh, hinlined⟩ := hsound.named _ (List.ne_nil_of_mem hname)
    rw [hinlined]
    exact nofun
  · rw [hnone] at hsome
    cases hsome

end Bundle

open Moniker.Bundle

/-- **A bundle is in order: declarations come after what they need, and once.** -/
theorem inOrder_bundle {p : Program} {path : String} {strict : Bool} {r : BundleResult}
    (h : ((bundle path strict).value p).1 = .ok r) :
    ∃ entry s, Yields p path strict entry s r ∧ InOrder p entry s := by
  obtain ⟨entry, s, hyields⟩ := yields_of_bundle h
  obtain ⟨body, q, hrun⟩ := hyields.run_ok
  obtain ⟨-, hsteps, hstack, -⟩ := run_ok hrun
  have hsound := (Sound.start p entry).steps hsteps
  have hwritten := (Written.start p entry).steps (.start p entry) hsteps
  refine ⟨entry, s, hyields, hstack, fun t ht => ?_, fun r hr hsome => ?_,
    fun t sh ht r hr hsome => ?_, hwritten.once, hwritten.statements, hwritten.hoisted,
    hwritten.ordered⟩
  · cases hprogress : s.progressOf t with
    | unvisited => exact absurd hprogress ht
    | inlining =>
      have hopen := (hsound.inlining_iff t).mp hprogress
      rw [hstack] at hopen
      cases hopen
    | inlined sh => exact ⟨sh, rfl, hsound.shape t sh hprogress⟩
  · exact (asked_settled hrun r hr).entered hsound hsome
  · exact ((hsound.supplied t sh ht).settled r hr).entered hsound hsome

/-- A file that exports a constant and has another that the first one needs. -/
def library : ParsedFile where
  path := "lib.ts"
  contents := "const c = 2; export const a = c;".toUTF8
  tree :=
    .node "program" "" true 0 32 [
      .node "lexical_declaration" "" true 0 12 [
        .node "variable_declarator" "" true 6 11 [
          .node "identifier" "name" true 6 7 [],
          .node "number" "value" true 10 11 []]],
      .node "export_statement" "" true 13 32 [
        .node "lexical_declaration" "declaration" true 20 32 [
          .node "variable_declarator" "" true 26 31 [
            .node "identifier" "name" true 26 27 [],
            .node "identifier" "value" true 30 31 []]]]]

/-- A file that imports the constant and declares one of its own from it. -/
def importing (declaration : String) : ParsedFile where
  path := "index.ts"
  contents := ("import { a } from './lib'; const " ++ declaration).toUTF8
  tree :=
    .node "program" "" true 0 39 [
      .node "import_statement" "" true 0 26 [
        .node "import_clause" "" true 7 12 [
          .node "named_imports" "" true 7 12 [
            .node "import_specifier" "" true 9 10 [.node "identifier" "name" true 9 10 []]]],
        .node "string" "source" true 18 25 []],
      .node "lexical_declaration" "" true 27 39 [
        .node "variable_declarator" "" true 33 38 [
          .node "identifier" "name" true 33 34 [],
          .node "identifier" "value" true 37 38 []]]]

/-- The program of the two files. -/
def importingLibrary (declaration : String) : Program :=
  .ofSource ((({} : Source).add "index.ts" (importing declaration).contents
    (importing declaration).tree).add "lib.ts" library.contents library.tree)

theorem build_importing (declaration : String) :
    Program.build [importing declaration, library] = .ok (importingLibrary declaration) := by
  have hindex : Path.clean "index.ts" = "index.ts" := by decide
  have hlib : Path.clean "lib.ts" = "lib.ts" := by decide
  have h : Path.clean (importing declaration).path ≠ Path.clean library.path := by
    rw [importing, library, hindex, hlib]
    decide
  rw [Program.build_pair h, importingLibrary, ← hindex, ← hlib]
  rfl

/-- The codes of what their bundle reports. -/
def codesImporting (declaration : String) (strict : Bool) : Option (List Code) :=
  ((bundle "index.ts" strict).value (importingLibrary declaration)).1.toOption.map fun r =>
    r.diagnostics.map Diagnostic.code

theorem exists_bundle_importing {declaration : String} {strict : Bool} {codes : List Code}
    (h : codesImporting declaration strict = some codes) :
    ∃ r, ((bundle "index.ts" strict).value (importingLibrary declaration)).1 = .ok r ∧
      r.diagnostics.map Diagnostic.code = codes := by
  rw [codesImporting] at h
  cases hr : ((bundle "index.ts" strict).value (importingLibrary declaration)).1 with
  | error d =>
    rw [hr] at h
    cases h
  | ok r =>
    rw [hr] at h
    exact ⟨r, rfl, Option.some.inj h⟩

/-- What is imported needs another constant of its file, and the entry has one of that name. -/
theorem inOrder_bundle_importing : ∃ p r, Program.build [importing "c = a;", library] = .ok p ∧
    ((bundle "index.ts" true).value p).1 = .ok r ∧
    r.diagnostics.map Diagnostic.code = [.nameCollision] ∧
    ∃ entry s, Yields p "index.ts" true entry s r ∧ InOrder p entry s := by
  have hclash : codesImporting "c = a;" true = some [.nameCollision] := by decide +kernel
  obtain ⟨r, hr, hcodes⟩ := exists_bundle_importing hclash
  exact ⟨_, r, build_importing _, hr, hcodes, inOrder_bundle hr⟩

end Moniker
