/-
# What entries read and write

An entry reads the files below its root and writes them and its output, all of them in its
root as slash paths (`Task.gives_mangleEntry`, `Task.gives_bundleEntry`).  The entries of a
valid manifest have roots apart, so no two of them use one path (`Manifest.parts_of_validate`).
-/

import Moniker.Command.Execute
import Moniker.Proofs.Running.Workspaces

namespace Moniker

open Session (Gives)

variable {D : Disk → Prop} {project : Project} {m : Manifest} {e : ManifestEntry} {p : String}
  {dryRun : Bool}

namespace ManifestEntry

theorem WellFormed.within_root (h : e.WellFormed) : Path.within e.root = true :=
  h.inside _ List.mem_cons_self h.rooted

/-- Is the path one that climbs nowhere from the root of the entry? -/
def Holds (e : ManifestEntry) (p : String) : Prop :=
  ∃ q, Path.within q = true ∧ p = Path.join [e.cleanRoot, q]

theorem Holds.nested (he : e.WellFormed) (h : e.Holds p) : Path.nested p e.cleanRoot = true := by
  obtain ⟨q, hq, rfl⟩ := h
  exact Path.nested_join he.within_root hq

/-- **What an entry names lies in its root.** -/
theorem WellFormed.holds_of_mem (h : e.WellFormed)
    (hp : p ∈ e.bundle :: e.output :: e.publicFiles) : e.Holds (Path.join [e.cleanRoot, p]) := by
  refine ⟨p, ?_, rfl⟩
  by_cases hempty : p = ""
  · subst hempty
    cbv
  · exact h.inside p (List.mem_cons_of_mem _ hp) hempty

end ManifestEntry

namespace Task

theorem mem_overlaid {olds news : List (String × ByteArray)} {c : String × ByteArray}
    (h : c ∈ overlaid olds news) : c ∈ olds ∨ c ∈ news :=
  (List.mem_append.mp h).imp_left fun h => (List.mem_filter.mp h).1

/-- **Mangling an entry** reads and rewrites files in its root. -/
theorem gives_mangleEntry (hD : ∀ d, D d → d.Tidy) (hroot : Path.isAbsolute project.root = true) :
    Gives D (mangleEntry project m e dryRun) fun r => ∀ c ∈ r.2.contents, e.Holds c.1 := by
  unfold mangleEntry
  refine Session.Gives.now.bind fun started _ => ?_
  refine (Workspace.gives_scan hD (Path.settled_join hroot _) _).bind fun rels hrels => ?_
  refine Workspace.gives_loadFiles.bind fun w hw => ?_
  refine gives_manglePass.bind fun r hr => .pure fun c hc => ?_
  obtain ⟨source, hsource, heq⟩ := hr c hc
  obtain ⟨rel, hrel, hjoin⟩ := List.mem_map.mp (hw.2 source hsource)
  exact ⟨rel, hrels rel hrel, heq.symm.trans hjoin.symm⟩

/-- **Bundling an entry** adds a file in its root. -/
theorem gives_bundleEntry (he : e.WellFormed) {w : Workspace} {done : EntryProgress}
    (hdone : ∀ c ∈ done.contents, e.Holds c.1) :
    Gives D (bundleEntry project e dryRun w done) fun r => ∀ c ∈ r.contents, e.Holds c.1 := by
  unfold bundleEntry
  split
  · exact .pure hdone
  · refine Session.Gives.now.bind fun started _ => ?_
    refine Workspace.gives_ofSources.bind fun mangled _ => ?_
    refine gives_bundlePass.bind fun r _ => ?_
    dsimp only
    refine .pure fun c hc => ?_
    dsimp only at hc
    split at hc
    · rcases mem_overlaid hc with hc | hc
      · exact hdone c hc
      · obtain rfl := List.mem_singleton.mp hc
        exact he.holds_of_mem (by simp)
    · exact hdone c hc

end Task

/-! ### Entries apart -/

namespace ManifestEntry

/-- The slash paths that an entry uses: those it names, those of the files it reads, and
those of the files it writes. -/
inductive Uses (project : Project) (m : Manifest) (e : ManifestEntry) : String → Prop
  | named {q : String} (hq : q ∈ e.bundle :: e.output :: e.publicFiles) :
    Uses project m e (Path.join [e.cleanRoot, q])
  | read {around : Surroundings} {s : SessionState} {rels : List String} {rel : String}
    (hdisk : s.world.disk.Tidy)
    (hscan : ((Workspace.scan (e.dir project.root) project.settings.ignoreDirs).exec around s).1
      = .ok rels) (hrel : rel ∈ rels) : Uses project m e (Path.join [e.cleanRoot, rel])
  | written {around around' : Surroundings} {s s' : SessionState} {dryRun : Bool} {w : Workspace}
    {mangled done : Task.EntryProgress} {c : String × ByteArray} (hdisk : s.world.disk.Tidy)
    (hmangle : ((Task.mangleEntry project m e dryRun).exec around s).1 = .ok (w, mangled))
    (hdisk' : s'.world.disk.Tidy)
    (hbundle : ((Task.bundleEntry project e dryRun w mangled).exec around' s').1 = .ok done)
    (hc : c ∈ done.contents) : Uses project m e c.1

/-- **An entry uses paths in its root only.** -/
theorem Uses.holds (he : e.WellFormed) (hroot : Path.isAbsolute project.root = true)
    (h : e.Uses project m p) : e.Holds p := by
  cases h with
  | named hq => exact he.holds_of_mem hq
  | @read around s rels rel hdisk hscan hrel =>
    have hscanned := Workspace.gives_scan (fun _ hd => hd)
      (Path.settled_join hroot [e.root]) project.settings.ignoreDirs around s hdisk
    exact ⟨rel, hscanned.2 rels hscan rel hrel, rfl⟩
  | @written around around' s s' dryRun w mangled done c hdisk hmangle hdisk' hbundle hc =>
    have hmangled : ∀ c ∈ mangled.contents, e.Holds c.1 :=
      (Task.gives_mangleEntry (fun _ hd => hd) hroot around s hdisk).2 _ hmangle
    exact (Task.gives_bundleEntry he hmangled around' s' hdisk').2 done hbundle c hc

end ManifestEntry

namespace Manifest

/-- The entries of a manifest part the files of a project between them. -/
structure Parts (m : Manifest) (project : Project) : Prop where
  /-- No path lies in the roots of two entries. -/
  roots : m.entries.Pairwise fun a b =>
    ∀ p, ¬ (Path.nested p a.cleanRoot = true ∧ Path.nested p b.cleanRoot = true)
  /-- What an entry names lies in its root. -/
  named : ∀ e ∈ m.entries, ∀ p ∈ e.bundle :: e.output :: e.publicFiles,
    Path.nested (Path.join [e.cleanRoot, p]) e.cleanRoot = true
  /-- No path is used by two entries. -/
  used : m.entries.Pairwise fun a b => ∀ p, ¬ (a.Uses project m p ∧ b.Uses project m p)

/-- **The entries of a valid manifest own their files.** Whether it is valid does not depend
on the order in which earlier entries are compared. -/
theorem parts_of_validate (m : Manifest) (project : Project)
    (hroot : Path.isAbsolute project.root = true)
    (order : List ManifestEntry → List ManifestEntry) (horder : ∀ l, (order l).Perm l) :
    (checkIn order [] m.entries = .ok () ↔ m.validate = .ok ()) ∧
      (m.validate = .ok () → m.Parts project) := by
  constructor
  · rw [checkIn_ok_iff horder, validate_ok_iff]
    simp
  · intro h
    obtain ⟨hwell, hapart⟩ := validate_ok_iff.mp h
    have hroots : m.entries.Pairwise fun a b =>
        ∀ p, ¬ (Path.nested p a.cleanRoot = true ∧ Path.nested p b.cleanRoot = true) :=
      hapart.imp fun hab => ManifestEntry.overlaps_eq_false_iff.mp hab.roots
    refine ⟨hroots, fun e he p hp =>
      ((hwell e he).holds_of_mem hp).nested (hwell e he), ?_⟩
    refine hroots.imp_of_mem fun ha hb hab p hp => hab p ⟨?_, ?_⟩
    · exact (hp.1.holds (hwell _ ha) hroot).nested (hwell _ ha)
    · exact (hp.2.holds (hwell _ hb) hroot).nested (hwell _ hb)

/-- An entry with paths written in a roundabout way. -/
def app : ManifestEntry :=
  { name := "app", root := "./lib//a", publicFiles := ["x/../index.ts"], bundle := "index.ts",
    output := "dist/./out.ts" }

/-- An entry whose root is named like the beginning of another. -/
def core : ManifestEntry := { name := "core", root := "lib/a/../ab", publicFiles := ["index.ts"] }

/-- Two directories side by side. -/
def sideBySide : Manifest := { version := 1, entries := [app, core] }

theorem parts_of_validate_sideBySide : Path.isAbsolute "/project" = true ∧
    (∀ l : List ManifestEntry, l.reverse.Perm l) ∧ sideBySide.validate = .ok () ∧
      checkIn List.reverse [] sideBySide.entries = .ok () ∧
        sideBySide.Parts { root := "/project", settings := {} } := by
  have hroot : Path.isAbsolute "/project" = true := by decide
  have hvalid : sideBySide.validate = .ok () := by cbv
  obtain ⟨hiff, hparts⟩ := parts_of_validate sideBySide { root := "/project", settings := {} }
    hroot List.reverse List.reverse_perm
  exact ⟨hroot, List.reverse_perm, hvalid, hiff.mpr hvalid, hparts hvalid⟩

end Manifest
end Moniker
