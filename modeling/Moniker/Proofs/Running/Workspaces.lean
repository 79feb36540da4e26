/-
# What workspaces and passes read and write

Documents lie at clean absolute paths (`Disk.Tidy`), so a file found below a directory is
named by a path that climbs nowhere (`Workspace.within_of_mem_sourcesBelow`).  Loading files
and passing over them leaves the disk as it is; the contents that a renaming gives are those
of files of the workspace (`mangle_contents`).
-/

import Moniker.Command.Passes
import Moniker.Proofs.FileByFile
import Moniker.Proofs.RelativePaths
import Moniker.Proofs.Running.Sessions

namespace Moniker

/-! ### Directories -/

/-- Is the path one that a disk has documents at? -/
structure Path.Settled (p : String) : Prop where
  absolute : Path.isAbsolute p = true
  cleaned : Path.clean p = p

/-- All documents lie at clean absolute paths. -/
def Disk.Tidy (d : Disk) : Prop := ∀ e ∈ d.documents, Path.Settled e.1

namespace Path

variable {p q root rel : String} {more R P : List String}

theorem Settled.render_names (h : Settled p) : render true (names p) = p := by
  rw [← clean_of_isAbsolute h.absolute, h.cleaned]

theorem settled_render (h : ∀ s ∈ R, Plain s) : Settled (render true R) :=
  ⟨isAbsolute_render R, clean_render h⟩

theorem isAbsolute_join (h : isAbsolute p = true) (more : List String) :
    isAbsolute (Text.join "/" (p :: more)) = true := by
  cases more with
  | nil => simpa [Text.join] using h
  | cons q more =>
    obtain ⟨rest, hrest, hsegs⟩ := isAbsolute_iff.mp h
    have hjoin := join_append (List.cons_ne_nil p []) (List.cons_ne_nil q more)
    rw [List.singleton_append, show Text.join "/" [p] = p by simp [Text.join]] at hjoin
    rw [hjoin, isAbsolute_iff, segments_append_slash, hsegs]
    exact ⟨_, List.append_ne_nil_of_left_ne_nil hrest _, rfl⟩

theorem settled_join (h : isAbsolute p = true) (more : List String) :
    Settled (join (p :: more)) := by
  rw [join_cons (ne_empty_of_isAbsolute h), clean_of_isAbsolute (isAbsolute_join h _)]
  exact settled_render fun _ => plain_of_mem_names

theorem settled_joinRoot (h : isAbsolute root = true) (rel : String) :
    Settled (joinRoot root rel) := by
  rw [joinRoot_eq h]
  exact settled_render fun _ => plain_of_mem_landing

/-- A path that leads down by names is joined to a root by going on from it, unless there is
a backslash in it. -/
theorem joinRoot_render_false (hroot : isAbsolute root = true) (h : ∀ s ∈ R, Plain s)
    (hslash : '\\' ∉ (render false R).toList) :
    joinRoot root (render false R) = render true (names root ++ R) := by
  have hwalk := walk_render_false h
  have hlanding : landing root (render false R) = names root ++ R := by
    rw [landing, slashed_of_not_mem hslash, climb, descent, hwalk, Nat.sub_zero, List.take_length,
      List.reverse_reverse]
  rw [joinRoot_eq hroot, hlanding]

theorem joinRoot_render_inj (hroot : isAbsolute root = true) (hR : ∀ s ∈ R, Plain s)
    (hP : ∀ s ∈ P, Plain s) (hslash : '\\' ∉ (render false R).toList)
    (hslash' : '\\' ∉ (render false P).toList)
    (h : joinRoot root (render false R) = joinRoot root (render false P)) : R = P := by
  have hplain {Q : List String} (hQ : ∀ s ∈ Q, Plain s) : ∀ s ∈ names root ++ Q, Plain s :=
    fun s hs => (List.mem_append.mp hs).elim plain_of_mem_names (hQ s)
  rw [joinRoot_render_false hroot hR hslash, joinRoot_render_false hroot hP hslash',
    render_inj (hplain hP) (hplain hR)] at h
  exact List.append_cancel_left h

/-- **What leads to a path inside a directory climbs nowhere.** -/
theorem within_of_relative? (hroot : Settled root) (hp : Settled p) (hin : Inside root p)
    (h : relative? root p = some rel) : within rel = true := by
  rw [← hroot.render_names, ← hp.render_names,
    inside_render_iff (fun _ => plain_of_mem_names) fun _ => plain_of_mem_names] at hin
  obtain ⟨more, hmore⟩ := hin
  have hplain : ∀ s ∈ more, Plain s := fun s hs =>
    plain_of_mem_names (p := p) (hmore ▸ List.mem_append_right _ hs)
  rw [← hp.render_names, ← hmore, relative?_render hroot.absolute hplain] at h
  obtain rfl := Option.some.inj h
  exact within_render_false hplain

end Path

namespace Workspace

open Session (Gives)

variable {D : Disk → Prop} {d : Disk} {dir rel : String} {ignored rels : List String}
  {project : Project} {sources : List (String × ByteArray)} {files : List FileId} {w : Workspace}

/-! ### Finding files -/

/-- **A file found below a directory** is named by a path that climbs nowhere. -/
theorem within_of_mem_sourcesBelow (hd : d.Tidy) (hdir : Path.Settled dir)
    (h : rel ∈ sourcesBelow d dir ignored) : Path.within rel = true := by
  unfold sourcesBelow at h
  dsimp only at h
  rw [Text.mem_sort, List.mem_filterMap] at h
  obtain ⟨path, hpath, hrel⟩ := h
  obtain ⟨hrel, -⟩ := Option.filter_eq_some_iff.mp hrel
  unfold Disk.below at hpath
  dsimp only at hpath
  obtain ⟨hmem, hstart⟩ := List.mem_filter.mp hpath
  obtain ⟨e, he, rfl⟩ := List.mem_map.mp hmem
  refine Path.within_of_relative? hdir (hd e he) ?_ hrel
  split at hstart
  · next htop => exact .inr (.inl (beq_iff_eq.mp htop))
  · exact .inr (.inr hstart)

theorem gives_scan (hD : ∀ d, D d → d.Tidy) (hdir : Path.Settled dir) (ignored : List String) :
    Gives D (scan dir ignored) fun rels => ∀ rel ∈ rels, Path.within rel = true := by
  unfold scan
  refine Session.Gives.disk.bind fun d hd => ?_
  split
  · exact .pure fun rel hrel => within_of_mem_sourcesBelow (hD d hd) hdir hrel
  · split
    · refine .pure fun rel hrel => ?_
      split at hrel
      · obtain rfl := List.mem_singleton.mp hrel
        cbv
      · exact absurd hrel List.not_mem_nil
    · exact .fail _

/-! ### Loading -/

theorem gives_readSource (root rel : String) : Gives D (readSource root rel) fun _ => True := by
  unfold readSource
  refine Session.Gives.disk.bind fun d _ => ?_
  split
  · exact .pure trivial
  · exact .fail _
  · exact .fail _

theorem gives_parseFile (rel : String) (contents : ByteArray) :
    Gives D (parseFile rel contents) fun _ => True := by
  unfold parseFile
  split
  · exact .fail _
  · refine Session.Gives.read.bind fun around _ => ?_
    split
    · exact .pure trivial
    · exact .fail _

theorem gives_logProgram (project : Project) (p : Program) :
    Gives D (logProgram project p) fun _ => True := by
  unfold logProgram
  refine Session.Gives.bind (P := fun _ => True) ?_ fun _ _ => .log _ _ _ _
  refine .forIn fun f _ => ?_
  dsimp only
  split
  · exact (Session.Gives.log _ _ _ _).bind fun _ _ => .pure trivial
  · exact .pure trivial

/-- A workspace holds the contents it is built from. -/
theorem gives_ofSources : Gives D (ofSources project sources) fun w =>
    w.project = project ∧ ∀ c ∈ w.sources, c ∈ sources := by
  unfold ofSources
  dsimp only
  refine (Session.Gives.mapM (Q := fun _ _ => True) fun c _ => gives_parseFile _ _).bind
    fun files _ => ?_
  refine (Session.Gives.ofExcept (Q := fun _ => True) fun _ _ => trivial).bind fun p _ => ?_
  refine (gives_logProgram project p).bind fun _ _ => ?_
  refine Session.Gives.bind (P := fun _ => True) (.log _ _ _ _) fun _ _ => ?_
  exact .pure ⟨rfl, fun c hc => List.mem_mergeSort.mp hc⟩

theorem gives_loadFiles : Gives D (loadFiles project rels) fun w =>
    w.project = project ∧ ∀ c ∈ w.sources, c.1 ∈ rels := by
  unfold loadFiles
  have hread : Gives D (rels.mapM fun rel => do return (rel, ← readSource project.root rel))
      fun sources => ∀ c ∈ sources, ∃ rel ∈ rels, c.1 = rel := by
    refine .mapM fun rel _ => ?_
    exact (gives_readSource project.root rel).bind fun _ _ => .pure rfl
  refine hread.bind fun sources hsources => gives_ofSources.mono fun w hw => ⟨hw.1, fun c hc => ?_⟩
  obtain ⟨rel, hrel, heq⟩ := hsources c (hw.2 c hc)
  exact heq ▸ hrel

theorem gives_select (w : Workspace) (rels : List String) :
    Gives D (w.select rels) fun _ => True := by
  unfold select
  split
  · exact .pure trivial
  · refine (Session.Gives.mapM (Q := fun _ _ => True) fun rel _ => ?_).mono fun _ _ => trivial
    split
    · exact .pure trivial
    · exact .fail _

end Workspace

/-! ### Passes -/

section Passes

open Session (Gives)

variable {D : Disk → Prop} {w : Workspace} {b : Backend} {directives : List Directive}
  {project runs : Project} {req : MangleRequest} {entry : String} {strict : Bool}

theorem Backend.gives_readIndex (path : String) :
    Gives D (readIndex path) fun _ => True := by
  unfold readIndex
  refine Session.Gives.disk.bind fun d _ => ?_
  split
  · exact .pure trivial
  · split
    · exact .pure trivial
    · exact .fail _
  · exact .fail _
  · exact .fail _

theorem Backend.gives_ofProject (project : Project) :
    Gives D (ofProject project) fun _ => True := by
  unfold ofProject
  split
  · refine (gives_readIndex _).bind fun i _ => ?_
    exact Session.Gives.bind (P := fun _ => True) (.log _ _ _ _) fun _ _ => .pure trivial
  · exact .pure trivial

theorem gives_logDirective (project runs : Project) (b : Backend) (p : Program)
    (dropped : List Dropped) (d : Directive) :
    Gives D (logDirective project runs b p dropped d) fun _ => True := by
  unfold logDirective
  refine Session.Gives.bind (P := fun _ => True) (.forIn fun e _ => ?_) fun _ _ => ?_
  · split
    · exact (Session.Gives.log _ _ _ _).bind fun _ _ => .pure trivial
    · exact (Session.Gives.log _ _ _ _).bind fun _ _ => .pure trivial
  · split
    · exact .pure trivial
    · exact .log _ _ _ _

theorem gives_logOutcome (runs : Project) (o : FileOutcome) :
    Gives D (logOutcome runs o) fun _ => True := by
  cases o with
  | missing => exact .pure trivial
  | rejected d => exact .log _ _ _ _
  | applied r => exact .log _ _ _ _

theorem gives_logRenames (project : Project) (b : Backend) (p : Program)
    (directives : List Directive) (r : RenameResult) :
    Gives D (logRenames project b p directives r) fun _ => True := by
  unfold logRenames
  refine Session.Gives.freshId.bind fun id _ => ?_
  refine (Session.Gives.forM fun d _ => gives_logDirective _ _ _ _ _ d).bind fun _ _ => ?_
  exact (Session.Gives.forM fun o _ => gives_logOutcome _ o).bind fun _ _ => .log _ _ _ _

theorem gives_logPlan (runs : Project) (files : List FileId) (opts : MangleOptions)
    (plan : ManglePlan) : Gives D (logPlan runs files opts plan) fun _ => True := by
  unfold logPlan logAnalysis
  refine Session.Gives.bind (P := fun _ => True) ?_ fun _ _ =>
    Session.Gives.bind (P := fun _ => True) (.log _ _ _ _) fun _ _ => .log _ _ _ _
  exact Session.Gives.bind (P := fun _ => True) (.log _ _ _ _) fun _ _ => .log _ _ _ _

/-- **A file is rewritten from what there is of it.** -/
theorem Rename.mem_contents_run {sources : String → Option ByteArray} {locate : Locator}
    {c : String × ByteArray} (h : c ∈ (Rename.run sources locate directives).contents) :
    (sources c.1).isSome := by
  obtain ⟨f, hf, rfl⟩ := List.mem_map.mp h
  obtain ⟨file, -, hfile⟩ := List.mem_filterMap.mp
    (Rename.files_apply ▸ (List.mem_filter.mp hf).1 :
      f ∈ (Rename.paths (Rename.resolve locate directives).1).filterMap _)
  obtain rfl := Option.some.inj (Rename.path_of_rewrite? hfile)
  rw [Rename.rewrite?, Rename.applyFile] at hfile
  cases hs : sources f.path with
  | none => simp [hs, FileOutcome.file?] at hfile
  | some content => rfl

theorem Workspace.mem_sources_of_contents? {path : String} (h : (w.contents? path).isSome) :
    ∃ c ∈ w.sources, c.1 = path := by
  rw [Workspace.contents?, Option.isSome_map, List.find?_isSome] at h
  obtain ⟨c, hc, heq⟩ := h
  exact ⟨c, hc, beq_iff_eq.mp heq⟩

/-- **Mangling gives contents for files of the workspace** and none for others. -/
theorem gives_manglePass : Gives D (manglePass w req) fun r =>
    ∀ c ∈ r.2, ∃ source ∈ w.sources, source.1 = c.1 := by
  unfold manglePass
  refine (Workspace.gives_select w _).bind fun files _ => ?_
  dsimp only
  refine Session.Gives.either (P := fun _ => True) (.pure trivial) (Workspace.gives_select w _)
    fun roots _ => ?_
  refine (Backend.gives_ofProject _).bind fun b _ => ?_
  refine Session.Gives.freshId.bind fun id _ => ?_
  refine (gives_logPlan _ _ _ _).bind fun _ _ => ?_
  refine (gives_logRenames _ _ _ _ _).bind fun _ _ => .pure fun c hc => ?_
  exact Workspace.mem_sources_of_contents? (Rename.mem_contents_run hc)

theorem gives_bundlePass : Gives D (bundlePass w entry strict) fun _ => True := by
  unfold bundlePass
  refine Session.Gives.freshId.bind fun id _ => ?_
  dsimp only
  refine (Session.Gives.forM fun e _ => ?_).bind fun _ _ => ?_
  · cases e with
    | hoisted => exact .log _ _ _ _
    | warned => exact .log _ _ _ _
  · split
    · exact Session.Gives.bind (P := fun _ => True) (.log _ _ _ _) fun _ _ => .fail _
    · refine Session.Gives.bind (P := fun _ => True) (.log _ _ _ _) fun _ _ => ?_
      refine Session.Gives.bind (P := fun _ => True) (.log _ _ _ _) fun _ _ => ?_
      exact Session.Gives.freshId.bind fun _ _ => .pure trivial

end Passes
end Moniker
