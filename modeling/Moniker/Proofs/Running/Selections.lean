/-
# Entries done in one run

The entries of a run are those of the names given, in the order given and as often as given.
So their roots are apart just when no name is given twice (`Task.apart_of_chosen`).

An entry changes files at paths below its root only (`Task.exists_holds_of_changes`).  The
paths of entries apart lead to different files, unless there is a backslash in one: it is no
separator where paths are checked and one where they are joined to the root of the project.
-/

import Moniker.Proofs.Running.Entries
import Mathlib.Data.List.Pairwise

namespace Moniker

open Session (Gives)

variable {D : Disk → Prop} {project : Project} {m : Manifest} {a b e : ManifestEntry}
  {dryRun : Bool} {names : List String} {entries : List ManifestEntry}

/-! ### Names and entries -/

namespace ManifestEntry

instance : Std.Symm Apart where
  symm a b h := ⟨Ne.symm h.names, overlaps_comm a b ▸ h.roots⟩

end ManifestEntry

namespace Manifest

theorem mem_of_entry? {name : String} (h : m.entry? name = some e) :
    e ∈ m.entries ∧ e.name = name :=
  ⟨List.mem_of_find?_eq_some h, by simpa using List.find?_some h⟩

/-- **Entries of a valid manifest have roots apart** just when they have different names. -/
theorem overlaps_iff_name (hvalid : m.validate = .ok ()) (ha : a ∈ m.entries)
    (hb : b ∈ m.entries) : a.overlaps b = true ↔ a.name = b.name := by
  have happart := (validate_ok_iff.mp hvalid).2.forall ha hb
  constructor
  · intro h
    by_contra hne
    exact Bool.false_ne_true ((happart fun hab => hne (hab ▸ rfl)).roots ▸ h)
  · intro h
    by_cases hab : a = b
    · exact hab ▸ ManifestEntry.overlaps_self a
    · exact absurd h (happart hab).names

end Manifest

namespace Task

theorem bind_ok {α β : Type} {x : Except Failure α} {f : α → Except Failure β} {y : β}
    (h : x >>= f = .ok y) : ∃ a, x = .ok a ∧ f a = .ok y := by
  cases x with
  | error e => exact nomatch h
  | ok a => exact ⟨a, rfl, h⟩

/-- **The entries of a run** are all entries, or those of the names that are given. -/
theorem mem_of_chosen (h : chosen m names = .ok entries) :
    (∀ e ∈ entries, e ∈ m.entries) ∧
      (names = [] ∧ entries = m.entries ∨ entries.map ManifestEntry.name = names) := by
  unfold chosen at h
  split at h
  · next hempty =>
    obtain rfl := Except.ok.inj h
    exact ⟨fun _ he => he, .inl ⟨List.isEmpty_iff.mp hempty, rfl⟩⟩
  · suffices hmap : (∀ e ∈ entries, e ∈ m.entries) ∧ entries.map ManifestEntry.name = names from
      ⟨hmap.1, .inr hmap.2⟩
    clear * - h
    induction names generalizing entries with
    | nil =>
      obtain rfl := Except.ok.inj h
      exact ⟨nofun, rfl⟩
    | cons name names ih =>
      rw [List.mapM_cons] at h
      obtain ⟨e, hfound, htail⟩ := bind_ok h
      obtain ⟨rest, hrest, hcons⟩ := bind_ok htail
      obtain rfl : e :: rest = entries := Except.ok.inj hcons
      cases hentry : m.entry? name with
      | none =>
        rw [hentry] at hfound
        exact nomatch hfound
      | some e' =>
        rw [hentry] at hfound
        obtain rfl := Except.ok.inj hfound
        obtain ⟨hmem, hname⟩ := Manifest.mem_of_entry? hentry
        obtain ⟨hmems, hnames⟩ := ih hrest
        refine ⟨?_, by rw [List.map_cons, hname, hnames]⟩
        exact List.forall_mem_cons.mpr ⟨hmem, hmems⟩

end Task

/-! ### Writing -/

namespace Disk

variable {d : Disk} {path q : String} {doc : Document}

/-- Putting a document at a path does nothing to the documents at others. -/
theorem document?_put (h : q ≠ path) : (d.put path doc).document? q = d.document? q := by
  have hne : (path == q) = false := beq_eq_false_iff_ne.mpr (Ne.symm h)
  have hmap : ∀ ds : List (String × Document),
      ((ds.map fun e => if e.1 == path then (path, doc) else e).find? fun e => e.1 == q) =
        ds.find? fun e => e.1 == q := by
    intro ds
    induction ds with
    | nil => rfl
    | cons e ds ih =>
      rw [List.map_cons, List.find?_cons, List.find?_cons, ih]
      by_cases hat : (e.1 == path) = true
      · have he : (e.1 == q) = false := beq_iff_eq.mp hat ▸ hne
        rw [if_pos hat, he]
        simp only [hne]
      · rw [if_neg hat]
  unfold Disk.put Disk.document?
  dsimp only
  split
  · rw [hmap]
    rfl
  · rw [List.find?_append, List.find?_cons, hne]
    simp [Disk.makeDir]

theorem Tidy.put (hd : d.Tidy) (hpath : Path.Settled path) : (d.put path doc).Tidy := by
  intro e he
  unfold Disk.put at he
  dsimp only at he
  split at he
  · obtain ⟨e', he', rfl⟩ := List.mem_map.mp he
    split
    · exact hpath
    · exact hd e' he'
  · rcases List.mem_append.mp he with he | he
    · exact hd e he
    · obtain rfl := List.mem_singleton.mp he
      exact hpath

end Disk

namespace Workspace

/-- **Writing a file** puts a document at the path it is joined to. -/
theorem gives_write {rel : String} {contents : ByteArray}
    (h : ∀ d, D d → D (d.put (Path.joinRoot project.root rel) (.plain contents))) :
    Gives D (write project rel contents) fun _ => True := by
  unfold write
  dsimp only
  refine Session.Gives.disk.bind fun d _ => ?_
  split
  · exact .fail _
  · split
    · exact .fail _
    · exact Session.Gives.bind (P := fun _ => True) (.onDisk h) fun _ _ => .log _ _ _ _

theorem gives_writeAll {files : List (String × ByteArray)}
    (h : ∀ c ∈ files, ∀ d, D d → D (d.put (Path.joinRoot project.root c.1) (.plain c.2))) :
    Gives D (writeAll project files) fun _ => True :=
  .forM fun c hc => gives_write (h c (List.mem_mergeSort.mp hc))

end Workspace

namespace Task

/-- **Doing an entry** keeps what writing files below its root keeps. -/
theorem gives_doEntry (hD : ∀ d, D d → d.Tidy) (hroot : Path.isAbsolute project.root = true)
    (he : e.WellFormed) (hput : ∀ rel contents, e.Holds rel → ∀ d, D d →
      D (d.put (Path.joinRoot project.root rel) (.plain contents))) :
    Gives D (doEntry project m e dryRun) fun _ => True := by
  have hfailed (r : EntryReport × List Run) (f : Failure) : Gives D (do
      project.log .error "Entry failed" [("entry", .text e.name), ("error", .text f.text)]
      return r) fun _ => True :=
    Session.Gives.bind (P := fun _ => True) (.log _ _ _ _) fun _ _ => .pure trivial
  unfold doEntry
  dsimp only
  refine (@gives_mangleEntry _ (project.noting _) _ _ _ hD hroot).attempt.bind fun r hr => ?_
  cases r with
  | error f => exact hfailed _ f
  | ok r =>
    refine (gives_bundleEntry he hr).attempt.bind fun r hr => ?_
    cases r with
    | error f => exact hfailed _ f
    | ok done =>
      have hwrite : Gives D (if dryRun = true then pure ()
          else Workspace.writeAll (project.noting [("entry", .text e.name)]) done.contents)
          fun _ => True := by
        split
        · exact .pure trivial
        · exact Workspace.gives_writeAll fun c hc => hput c.1 c.2 (hr c hc)
      refine hwrite.attempt.bind fun r _ => ?_
      cases r with
      | error f => exact hfailed _ f
      | ok u => exact .pure trivial

/-- Does doing an entry, wherever it starts, change what is at a path? -/
def Changes (project : Project) (m : Manifest) (e : ManifestEntry) (path : String) : Prop :=
  ∃ around s dryRun, s.world.disk.Tidy ∧
    ((doEntry project m e dryRun).exec around s).2.world.disk.document? path ≠
      s.world.disk.document? path

/-- **An entry changes files below its root only.** -/
theorem exists_holds_of_changes {path : String} (hroot : Path.isAbsolute project.root = true)
    (he : e.WellFormed) (h : Changes project m e path) :
    ∃ rel, e.Holds rel ∧ path = Path.joinRoot project.root rel := by
  obtain ⟨around, s, dryRun, htidy, hchanged⟩ := h
  by_contra hnone
  have hkeeps : Gives (fun d => d.Tidy ∧ d.document? path = s.world.disk.document? path)
      (doEntry project m e dryRun) fun _ => True := by
    refine gives_doEntry (fun _ hd => hd.1) hroot he fun rel contents hrel d hd => ⟨?_, ?_⟩
    · exact hd.1.put (Path.settled_joinRoot hroot rel)
    · have hne : path ≠ Path.joinRoot project.root rel := fun hpath => hnone ⟨rel, hrel, hpath⟩
      rw [Disk.document?_put hne, hd.2]
  exact hchanged (hkeeps around s ⟨htidy, rfl⟩).1.2

end Task

/-! ### Runs -/

/-- The names on the way to a path of an entry. -/
theorem ManifestEntry.Holds.exists_render {rel : String} (he : e.WellFormed) (h : e.Holds rel) :
    ∃ R, (∀ s ∈ R, Path.Plain s) ∧ rel = Path.render false R := by
  obtain ⟨q, hq, rfl⟩ := h
  refine ⟨Path.descent e.root ++ Path.descent q, fun s hs => ?_, Path.join_clean he.within_root hq⟩
  exact (List.mem_append.mp hs).elim Path.plain_of_mem_descent Path.plain_of_mem_descent

namespace Task

/-- **Entries of one run.** Their roots are apart just when no name is given twice.  Then no
path is used by two of them, and no file is changed by two of them, unless a backslash in one
of its paths leads to it. -/
theorem apart_of_chosen (m : Manifest) (project : Project) (names : List String)
    (entries : List ManifestEntry) (hvalid : m.validate = .ok ())
    (hroot : Path.isAbsolute project.root = true) (hchosen : chosen m names = .ok entries) :
    (entries.Pairwise (fun a b => a.overlaps b = false) ↔ names.Nodup) ∧
      (names.Nodup → entries.Pairwise fun a b =>
        (∀ p, ¬ (a.Uses project m p ∧ b.Uses project m p)) ∧
          ∀ path, Changes project m a path → Changes project m b path →
            ∃ rel, '\\' ∈ rel.toList ∧ (a.Holds rel ∨ b.Holds rel) ∧
              path = Path.joinRoot project.root rel) := by
  obtain ⟨hmem, hnames⟩ := mem_of_chosen hchosen
  obtain ⟨hwell, happart⟩ := Manifest.validate_ok_iff.mp hvalid
  have hiff : entries.Pairwise (fun a b => a.overlaps b = false) ↔ names.Nodup := by
    rcases hnames with ⟨rfl, rfl⟩ | rfl
    · exact iff_of_true (happart.imp fun h => h.roots) List.nodup_nil
    · rw [List.Nodup, List.pairwise_map]
      refine List.Pairwise.iff_of_mem fun ha hb => ?_
      rw [← Bool.not_eq_true, Manifest.overlaps_iff_name hvalid (hmem _ ha) (hmem _ hb)]
  refine ⟨hiff, fun hnodup => (hiff.mpr hnodup).imp_of_mem fun ha hb hab => ⟨?_, ?_⟩⟩
  · have hapart := ManifestEntry.overlaps_eq_false_iff.mp hab
    intro p hp
    exact hapart p ⟨(hp.1.holds (hwell _ (hmem _ ha)) hroot).nested (hwell _ (hmem _ ha)),
      (hp.2.holds (hwell _ (hmem _ hb)) hroot).nested (hwell _ (hmem _ hb))⟩
  · intro path hchanged hchanged'
    obtain ⟨rel, hrel, hpath⟩ := exists_holds_of_changes hroot (hwell _ (hmem _ ha)) hchanged
    obtain ⟨rel', hrel', hpath'⟩ := exists_holds_of_changes hroot (hwell _ (hmem _ hb)) hchanged'
    by_contra hnone
    have hslash : '\\' ∉ rel.toList := fun h => hnone ⟨rel, h, .inl hrel, hpath⟩
    have hslash' : '\\' ∉ rel'.toList := fun h => hnone ⟨rel', h, .inr hrel', hpath'⟩
    obtain ⟨R, hR, rfl⟩ := hrel.exists_render (hwell _ (hmem _ ha))
    obtain ⟨P, hP, rfl⟩ := hrel'.exists_render (hwell _ (hmem _ hb))
    obtain rfl := Path.joinRoot_render_inj hroot hR hP hslash hslash' (hpath.symm.trans hpath')
    exact ManifestEntry.overlaps_eq_false_iff.mp hab _
      ⟨hrel.nested (hwell _ (hmem _ ha)), hrel'.nested (hwell _ (hmem _ hb))⟩

/-- Both entries, the second one first, and one entry twice. -/
theorem apart_of_chosen_sideBySide :
    Manifest.sideBySide.validate = .ok () ∧ Path.isAbsolute "/project" = true ∧
      chosen Manifest.sideBySide ["core", "app"] = .ok [Manifest.core, Manifest.app] ∧
      (∀ p, ¬ (Manifest.core.Uses { root := "/project", settings := {} } Manifest.sideBySide p ∧
        Manifest.app.Uses { root := "/project", settings := {} } Manifest.sideBySide p)) ∧
      chosen Manifest.sideBySide ["app", "app"] = .ok [Manifest.app, Manifest.app] ∧
      ¬ [Manifest.app, Manifest.app].Pairwise fun a b => a.overlaps b = false := by
  have hvalid : Manifest.sideBySide.validate = .ok () := by cbv
  have hroot : Path.isAbsolute "/project" = true := by decide
  have hboth : chosen Manifest.sideBySide ["core", "app"] =
      .ok [Manifest.core, Manifest.app] := by cbv
  have htwice : chosen Manifest.sideBySide ["app", "app"] =
      .ok [Manifest.app, Manifest.app] := by cbv
  have hapart := (apart_of_chosen _ { root := "/project", settings := {} } _ _ hvalid hroot
    hboth).2 (by decide)
  have hshared := (apart_of_chosen _ { root := "/project", settings := {} } _ _ hvalid hroot
    htwice).1
  refine ⟨hvalid, hroot, hboth, (List.pairwise_cons.mp hapart).1 _ List.mem_cons_self |>.1,
    htwice, fun h => ?_⟩
  exact absurd (hshared.mp h) (by decide)

end Task
end Moniker
