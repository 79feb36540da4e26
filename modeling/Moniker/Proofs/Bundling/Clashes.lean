/-
# Clashes of top-level names

A top-level name that several symbols take is reported, and the reports name all of these
symbols (`reportsClashes_bundle`).  Nothing else is reported as a clash.

| comes to the top by | takes its name |
| --- | --- |
| a declaration of the entry | yes |
| a line made for it | yes |
| the statement of another symbol | only if it is asked for by that name |
| an import that is kept | no |

So a statement that declares several variables may declare one that clashes unreported.
-/

import Moniker.Proofs.Bundling.Order
import Moniker.Proofs.Bundling.Ownership

namespace Moniker
namespace Bundle

variable {p : Program} {entry : FileId} {s s' : State} {r : Request} {sh : Shape}
  {t u v : SymbolId} {name : String} {n : NodeId} {d : Diagnostic} {l : Line}

/-- The report that a name of a symbol is taken by another one. -/
def collision (p : Program) (name : String) (prev owner : SymbolId) (n : NodeId) : Diagnostic :=
  reportAt p .nameCollision ("top-level name " ++ name ++ " is declared by both "
    ++ describe p prev ++ " and " ++ describe p owner) n

/-- The report says of a name that a symbol shares it. -/
def Names (p : Program) (name : String) (t : SymbolId) (d : Diagnostic) : Prop :=
  ∃ u n, u ≠ t ∧ (d = collision p name t u n ∨ d = collision p name u t n)

/-- Every report of a clash says which two symbols take the name. -/
def Genuine (p : Program) (entry : FileId) (s : State) (d : Diagnostic) : Prop :=
  d.code = .nameCollision → ∃ name t u n, t ≠ u ∧ Takes p entry s name t ∧
    Takes p entry s name u ∧ d = collision p name t u n

/-- A name has an owner if a symbol takes it, and is reported if several do. -/
structure Watched (p : Program) (entry : FileId) (s : State) : Prop where
  owned : ∀ name t, Takes p entry s name t → ∃ u, s.owners[name]? = some u
  owner : ∀ name t, s.owners[name]? = some t → Takes p entry s name t
  reported : ∀ name t u, t ≠ u → Takes p entry s name t → Takes p entry s name u →
    ∃ d, BundleEvent.warned d ∈ s.events ∧ Names p name t d
  genuine : ∀ d, BundleEvent.warned d ∈ s.events → Genuine p entry s d

/-! ### Reports of clashes -/

/-- A name that another symbol has is reported. -/
theorem State.events_addName : (s.addName p t name n).events = s.events ∧
      (∀ u, s.owners[name]? = some u → u = t) ∨
    ∃ u, s.owners[name]? = some u ∧ u ≠ t ∧
      (s.addName p t name n).events = s.events.push (.warned (collision p name u t n)) := by
  unfold State.addName State.claim
  dsimp only
  split
  · next u hu =>
    obtain ⟨howner, hne⟩ := Option.filter_eq_some_iff.mp hu
    exact .inr ⟨u, howner, by simpa using hne, rfl⟩
  · next hnone =>
    refine .inl ⟨rfl, fun u hu => ?_⟩
    simpa using Option.filter_eq_none_iff.mp hnone u hu

theorem State.warned_addName (h : BundleEvent.warned d ∈ s.events) :
    BundleEvent.warned d ∈ (s.addName p t name n).events := by
  obtain ⟨hevents, -⟩ | ⟨u, -, -, hevents⟩ := @State.events_addName p s t name n
  · rwa [hevents]
  · exact hevents ▸ Array.mem_push_of_mem _ h

theorem Genuine.mono (h : Genuine p entry s d)
    (htakes : ∀ name t, Takes p entry s name t → Takes p entry s' name t) :
    Genuine p entry s' d := by
  intro hcode
  obtain ⟨name, t, u, n, hne, ht, hu, hd⟩ := h hcode
  exact ⟨name, t, u, n, hne, htakes _ _ ht, htakes _ _ hu, hd⟩

namespace Watched

theorem start (p : Program) (entry : FileId) : Watched p entry (.start p entry) := by
  have htakes : ∀ name t, Takes p entry (.start p entry) name t ↔ Declares p entry name t :=
    fun name t => or_iff_left (by simp [State.start, State.namesOf])
  refine ⟨fun name t ht => ⟨t, (htakes name t).mp ht⟩, fun name t ht => (htakes name t).mpr ht,
    fun name t u hne ht hu => ?_, fun d hd => ?_⟩
  · have hsame := ((htakes name t).mp ht).symm.trans ((htakes name u).mp hu)
    exact absurd (Option.some.inj hsame) hne
  · simp [State.start] at hd

/-- Only names, owners and reports count. -/
theorem congr (h : Watched p entry s) (hbound : s'.bound = s.bound)
    (howners : s'.owners = s.owners)
    (hevents : ∀ d, BundleEvent.warned d ∈ s'.events ↔ BundleEvent.warned d ∈ s.events) :
    Watched p entry s' := by
  refine ⟨?_, ?_, ?_, ?_⟩
  · simpa only [takes_congr hbound, howners] using h.owned
  · simpa only [takes_congr hbound, howners] using h.owner
  · simpa only [takes_congr hbound, hevents] using h.reported
  · intro d hd
    exact (h.genuine d ((hevents d).mp hd)).mono fun _ _ => (takes_congr hbound).mpr

/-- A report of something else changes nothing. -/
theorem warn (h : Watched p entry s) (hd : d.code ≠ .nameCollision) :
    Watched p entry (s.warn d) := by
  have hevents : ∀ d', BundleEvent.warned d' ∈ (s.warn d).events ↔
      BundleEvent.warned d' ∈ s.events ∨ d' = d := by
    simp [State.warn]
  refine ⟨h.owned, h.owner, fun name t u hne ht hu => ?_, fun d' hd' => ?_⟩
  · obtain ⟨d', hd', hnames⟩ := h.reported name t u hne ht hu
    exact ⟨d', (hevents d').mpr (.inl hd'), hnames⟩
  · obtain hd' | rfl := (hevents d').mp hd'
    · exact h.genuine d' hd'
    · exact fun hcode => absurd hcode hd

/-- Whoever else takes a name, the symbol it is given to has it already, or is reported
together with the last one that took it. -/
theorem joins (h : Watched p entry s) (hu : Takes p entry s name u) :
    Takes p entry s name t ∨ ∃ w n', w ≠ t ∧ Takes p entry s name w ∧
      BundleEvent.warned (collision p name w t n') ∈ (s.addName p t name n).events := by
  obtain ⟨w, hw⟩ := h.owned name u hu
  obtain ⟨-, hfree⟩ | ⟨w', hw', hne, hevents⟩ := @State.events_addName p s t name n
  · exact .inl (hfree w hw ▸ h.owner name w hw)
  · exact .inr ⟨w', n, hne, h.owner name w' hw', hevents ▸ Array.mem_push_self⟩

/-- A symbol that takes a name which is given to another one is reported, and so is the
other one. -/
theorem reported_new (h : Watched p entry s) (hu : Takes p entry s name u) (hne : u ≠ t) :
    (∃ d, BundleEvent.warned d ∈ (s.addName p t name n).events ∧ Names p name u d) ∧
      ∃ d, BundleEvent.warned d ∈ (s.addName p t name n).events ∧ Names p name t d := by
  have hold : ∀ a b, a ≠ b → Takes p entry s name a → Takes p entry s name b →
      ∃ d, BundleEvent.warned d ∈ (s.addName p t name n).events ∧ Names p name a d := by
    intro a b hab ha hb
    obtain ⟨d, hd, hnames⟩ := h.reported name a b hab ha hb
    exact ⟨d, State.warned_addName hd, hnames⟩
  obtain ht | ⟨w, n', hwt, hw, hd⟩ := @joins _ _ _ t u name n h hu
  · exact ⟨hold u t hne hu ht, hold t u hne.symm ht hu⟩
  · refine ⟨?_, _, hd, w, n', hwt, .inr rfl⟩
    by_cases huw : u = w
    · exact ⟨_, hd, t, n', hne.symm, .inl (huw ▸ rfl)⟩
    · exact hold u w huw hu hw

theorem addName (h : Watched p entry s) : Watched p entry (s.addName p t name n) := by
  have howners : ∀ name', (s.addName p t name n).owners[name']? =
      if name = name' then some t else s.owners[name']? := fun name' => by
    rw [State.owners_addName, Table.getElem?_insert]
    simp only [beq_iff_eq]
  have hold : ∀ name' u, Takes p entry s name' u → Takes p entry (s.addName p t name n) name' u :=
    fun _ _ hu => takes_addName.mpr (.inl hu)
  have hnew : Takes p entry (s.addName p t name n) name t := takes_addName.mpr (.inr ⟨rfl, rfl⟩)
  refine ⟨fun name' u hu => ?_, fun name' u hu => ?_, fun name' a b hne ha hb => ?_,
    fun d hd => ?_⟩
  · rw [howners]
    obtain hu | ⟨rfl, rfl⟩ := takes_addName.mp hu
    · split
      · exact ⟨t, rfl⟩
      · exact h.owned name' u hu
    · exact ⟨t, if_pos rfl⟩
  · rw [howners] at hu
    split at hu
    · next hname => exact Option.some.inj hu ▸ hname ▸ hnew
    · exact hold _ _ (h.owner name' u hu)
  · obtain ha | ⟨rfl, rfl⟩ := takes_addName.mp ha <;>
      obtain hb | ⟨hname, rfl⟩ := takes_addName.mp hb
    · obtain ⟨d, hd, hnames⟩ := h.reported name' a b hne ha hb
      exact ⟨d, State.warned_addName hd, hnames⟩
    · exact hname ▸ (h.reported_new (hname ▸ ha) hne).1
    · exact (h.reported_new hb hne.symm).2
    · exact absurd rfl hne
  · obtain ⟨hevents, -⟩ | ⟨w, hw, hne, hevents⟩ := @State.events_addName p s t name n
    · exact (h.genuine d (hevents ▸ hd)).mono hold
    · rw [hevents, Array.mem_push] at hd
      obtain hd | hd := hd
      · exact (h.genuine d hd).mono hold
      · obtain rfl := BundleEvent.warned.inj hd
        exact fun _ => ⟨name, w, t, n, hne, hold _ _ (h.owner name w hw), hnew, rfl⟩

theorem introduce (h : Watched p entry s) : Watched p entry (s.introduce p r sh) := by
  have hlines : ∀ ls emitted, Watched p entry { s with lines := ls, emitted := emitted } :=
    fun ls emitted => h.congr rfl rfl fun _ => .rfl
  obtain ⟨ls, emitted, heq⟩ | ⟨ls, emitted, l, heq⟩ := introduce_cases p s r sh
  · rw [heq]
    exact hlines ls emitted
  · rw [heq]
    exact (hlines ls emitted).addName.congr rfl rfl fun _ => .rfl

theorem bind (h : Watched p entry s) : Watched p entry (s.bind p r sh) := by
  unfold State.bind
  split
  · exact h
  · refine h.introduce.addName.congr rfl rfl fun d => ?_
    simp

theorem remark (h : Watched p entry s) (hs : Remark s s') : Watched p entry s' := by
  cases hs with
  | warn hd => exact h.warn hd.1
  | keep line =>
    unfold State.keepImport
    split
    · exact h
    · exact h.congr rfl rfl fun _ => .rfl

/-- **A bundle reports the clashes it makes.** -/
theorem steps (h : Watched p entry s) (hs : Steps p entry s s') : Watched p entry s' :=
  hs.keep (fun _ _ _ h => h.congr rfl rfl fun _ => .rfl) (fun _ _ hs h => h.remark hs)
    (fun _ _ _ h => h.bind) h

end Watched

/-! ### Names and lines -/

/-- The name that a line gives its target. -/
def Line.given? (p : Program) : Line → Option (String × SymbolId)
  | declaration t _ => some ((p.symbol t).name, t)
  | value localName t _ => some (localName, t)
  | another localName t _ => some (localName, t)
  | kept _ => none

/-- The targets of the lines have the names that these give them. -/
def Granted (p : Program) (s : State) : Prop :=
  ∀ l ∈ s.lines.toList, ∀ name t, l.given? p = some (name, t) → name ∈ s.namesOf t

/-- The lines of an addition give its target the names of the addition. -/
theorem Addition.given {ls : List Line} {ns : List String} (h : Addition p s r sh ls ns) :
    ∀ l ∈ ls, ∀ name t, l.given? p = some (name, t) → r.target = t ∧ name ∈ ns := by
  intro l hl name t hgiven
  cases h with
  | stated => cases hl
  | declared hname =>
    obtain rfl := List.mem_singleton.mp hl
    obtain ⟨rfl, rfl⟩ := Prod.mk.inj (Option.some.inj hgiven)
    exact ⟨rfl, hname.2 ▸ List.mem_cons_self⟩
  | again | value | renamed =>
    obtain rfl := List.mem_singleton.mp hl
    obtain ⟨rfl, rfl⟩ := Prod.mk.inj (Option.some.inj hgiven)
    exact ⟨rfl, List.mem_cons_self⟩
  | both =>
    rcases List.mem_cons.mp hl with rfl | hl
    · obtain ⟨rfl, rfl⟩ := Prod.mk.inj (Option.some.inj hgiven)
      exact ⟨rfl, List.mem_cons_self⟩
    · obtain rfl := List.mem_singleton.mp hl
      obtain ⟨rfl, rfl⟩ := Prod.mk.inj (Option.some.inj hgiven)
      exact ⟨rfl, List.mem_cons_of_mem _ List.mem_cons_self⟩

namespace Granted

theorem start (p : Program) (entry : FileId) : Granted p (.start p entry) :=
  fun _ hl => nomatch hl

theorem bind (h : Granted p s) : Granted p (s.bind p r sh) := by
  by_cases hr : r.localName ∈ s.namesOf r.target
  · unfold State.bind
    rwa [if_pos (by simpa using hr)]
  obtain ⟨ls, ns, hadd, hlines, hnames, -⟩ := @bind_adds p s r sh hr
  intro l hl name t hgiven
  rw [hlines] at hl
  rw [hnames]
  rcases List.mem_append.mp hl with hl | hl
  · exact List.mem_append_left _ (h l hl name t hgiven)
  · obtain ⟨ht, hname⟩ := hadd.given l hl name t hgiven
    rw [if_pos ht]
    exact List.mem_append_right _ hname

theorem remark (h : Granted p s) (hs : Remark s s') : Granted p s' := by
  cases hs with
  | warn => exact h
  | keep line =>
    unfold State.keepImport
    split
    · exact h
    intro l hl name t hgiven
    change l ∈ (s.lines.push (.kept line)).toList at hl
    rw [Array.toList_push] at hl
    rcases List.mem_append.mp hl with hl | hl
    · exact h l hl name t hgiven
    · rw [List.mem_singleton.mp hl] at hgiven
      cases hgiven

theorem steps (h : Granted p s) (hs : Steps p entry s s') : Granted p s' :=
  hs.keep (fun _ _ _ h => h) (fun _ _ hs h => h.remark hs) (fun _ _ _ h => h.bind) h

end Granted

/-- A symbol stands at the top level under a name: the entry declares it, or a line introduces
it. -/
def Stands (p : Program) (entry : FileId) (s : State) (name : String) (t : SymbolId) : Prop :=
  Declares p entry name t ∨ ∃ l ∈ s.lines.toList, l.Introduces p name t

/-- A symbol comes to the top with the statement of another one, and does not take its name. -/
def ComesAlong (p : Program) (entry : FileId) (s : State) (name : String) (t : SymbolId) : Prop :=
  ¬ Takes p entry s name t ∧ ∃ u d k, u ≠ t ∧ Line.declaration u d ∈ s.lines.toList ∧
    shapeOf? p t = some ⟨k, d⟩

/-- The symbols that an entry declares at its top level, imports apart. -/
def entrySymbols (p : Program) (entry : FileId) : List SymbolId :=
  (p.scope (p.moduleOf entry).scope).symbols.filter fun t =>
    !((p.symbol t).has .importBinding || (p.symbol t).has .namespaceImport)

theorem exists_declares (h : t ∈ entrySymbols p entry) : ∃ u ∈ entrySymbols p entry,
    (p.symbol u).name = (p.symbol t).name ∧ Declares p entry (p.symbol t).name u := by
  -- The last one of a name is on record.
  have hlast : ∀ ts : List SymbolId, t ∈ ts → ∃ u ∈ ts, (p.symbol u).name = (p.symbol t).name ∧
      (ts.foldl (fun m s => m.insert (p.symbol s).name s)
        ({} : Table String SymbolId))[(p.symbol t).name]? = some u := by
    intro ts
    induction ts using List.reverseRecOn with
    | nil => exact fun ht => nomatch ht
    | append_singleton ts v ih =>
      intro ht
      rw [List.foldl_append, List.foldl_cons, List.foldl_nil, Table.getElem?_insert]
      by_cases hname : (p.symbol v).name = (p.symbol t).name
      · exact ⟨v, by simp, hname, if_pos (beq_iff_eq.mpr hname)⟩
      · rcases List.mem_append.mp ht with ht | ht
        · obtain ⟨u, hu, hsame, hrecord⟩ := ih ht
          refine ⟨u, List.mem_append_left _ hu, hsame, ?_⟩
          rwa [if_neg (by simpa using hname)]
        · exact absurd (List.mem_singleton.mp ht ▸ rfl) hname
  exact hlast _ h

theorem Takes.stands (h : Takes p entry s name t) (hw : Written p entry s) :
    Stands p entry s name t := h.imp_right (hw.introduced t name)

/-- Whoever stands at the top level takes its name, or has come with another one. -/
theorem Stands.takes_or (h : Stands p entry s name t) (hg : Granted p s) :
    Takes p entry s name t ∨ ComesAlong p entry s name t := by
  refine or_iff_not_imp_left.mpr fun hnot => ?_
  obtain h | ⟨l, hl, h⟩ := h
  · exact absurd (.inl h) hnot
  cases l with
  | declaration u d =>
    obtain ⟨k, -, hshape, rfl⟩ := h
    refine ⟨hnot, u, d, k, ?_, hl, hshape⟩
    rintro rfl
    exact hnot (.inr (hg _ hl _ _ rfl))
  | value localName u d =>
    obtain ⟨rfl, rfl⟩ := h
    exact absurd (.inr (hg _ hl _ _ rfl)) hnot
  | another localName u known =>
    obtain ⟨rfl, rfl⟩ := h
    exact absurd (.inr (hg _ hl _ _ rfl)) hnot
  | kept text => cases h

/-! ### A bundle that succeeds -/

/-- What it means that a bundle reports the clashes of its top-level names. -/
structure ReportsClashes (p : Program) (entry : FileId) (s : State) (r : BundleResult) :
    Prop where
  /-- Every one of the symbols that stand under a name is named by a report of it, except for
  those that have come with other ones. -/
  reported : ∀ name t u, t ≠ u → Stands p entry s name t → Stands p entry s name u →
    (∃ d ∈ r.diagnostics, Names p name t d) ∨ ComesAlong p entry s name t ∨ ComesAlong p entry s name u
  /-- A report names two symbols that stand under the name. -/
  genuine : ∀ d ∈ r.diagnostics, d.code = .nameCollision → ∃ name t u n, t ≠ u ∧
    Stands p entry s name t ∧ Stands p entry s name u ∧ d = collision p name t u n
  taken : ∀ name t, Takes p entry s name t → Stands p entry s name t
  /-- A name that the entry declares is taken by one of the symbols that it declares. -/
  declared : ∀ t ∈ entrySymbols p entry, ∃ u ∈ entrySymbols p entry,
    (p.symbol u).name = (p.symbol t).name ∧ Declares p entry (p.symbol t).name u

end Bundle

open Moniker.Bundle

/-- **A bundle reports the clashes of the names that it gives.** -/
theorem reportsClashes_bundle {p : Program} {path : String} {strict : Bool} {r : BundleResult}
    (h : ((bundle path strict).value p).1 = .ok r) :
    ∃ entry s, Yields p path strict entry s r ∧ ReportsClashes p entry s r := by
  obtain ⟨entry, s, hyields⟩ := yields_of_bundle h
  obtain ⟨body, q, hrun⟩ := hyields.run_ok
  obtain ⟨-, hsteps, -, -⟩ := run_ok hrun
  have hs := (Sound.start p entry).steps hsteps
  have hwritten := (Written.start p entry).steps (.start p entry) hsteps
  have hgranted := (Granted.start p entry).steps hsteps
  have hwatched := (Watched.start p entry).steps hsteps
  have hevents : ∀ d, d ∈ r.diagnostics ↔ BundleEvent.warned d ∈ s.events := by
    obtain ⟨body', -, rfl⟩ := hyields.result
    exact fun d => State.mem_diagnostics
  refine ⟨entry, s, hyields, fun name t u hne ht hu => ?_, fun d hd hcode => ?_,
    fun name t ht => ht.stands hwritten, fun t ht => exists_declares ht⟩
  · obtain ht | ht := ht.takes_or hgranted
    · obtain hu | hu := hu.takes_or hgranted
      · obtain ⟨d, hd, hnames⟩ := hwatched.reported name t u hne ht hu
        exact .inl ⟨d, (hevents d).mpr hd, hnames⟩
      · exact .inr (.inr hu)
    · exact .inr (.inl ht)
  · obtain ⟨name, t, u, n, hne, ht, hu, hd⟩ := hwatched.genuine d ((hevents d).mp hd) hcode
    exact ⟨name, t, u, n, hne, ht.stands hwritten, hu.stands hwritten, hd⟩

/-- The constant that the imported one needs clashes with that of the entry. -/
theorem reportsClashes_bundle_importing :
    ∃ p r, Program.build [importing "c = a;", library] = .ok p ∧
      ((bundle "index.ts" false).value p).1 = .ok r ∧
      r.diagnostics.map Diagnostic.code = [.nameCollision] ∧
      ∃ entry s, Yields p "index.ts" false entry s r ∧ ReportsClashes p entry s r := by
  have hclash : codesImporting "c = a;" false = some [.nameCollision] := by decide +kernel
  obtain ⟨r, hr, hcodes⟩ := exists_bundle_importing hclash
  exact ⟨_, r, build_importing _, hr, hcodes, reportsClashes_bundle hr⟩

end Moniker
