/-
# One export behind a name

A module passes on the exports of others with `export *`, and these may pass on more, in
circles too.  Three functions walk along it: one stops at the first export of a name
(`Program.export?`), one collects a table of names (`Program.namespaceTable`), one lists all
exports (`Program.exportsOf`).  They meet the same modules in the same order
(`Program.walk`), which are all that `export *` leads to (`Program.mem_met_iff`).  What is
found under a name is the first export of that name on the walk, whichever of the three
is asked; `default` is looked for in the first module only.
-/

import Moniker.Surface.Reach
import Mathlib.Logic.Relation
import Mathlib.Data.Finset.Card
import Mathlib.Order.Interval.Finset.Nat

namespace Moniker
namespace Program

open Relation (ReflTransGen)

variable {p : Program} {m next : ModuleId} {seen nexts : List ModuleId} {name x : String}
  {s : SymbolId} {fuel : Nat} {table : MemberTable}

/-! ### The walk -/

/-- The modules whose exports a module passes on, clause by clause. -/
def passed (p : Program) (m : ModuleId) : List ModuleId :=
  (p.moduleInfo m).stars.filterMap (p.resolve? (p.moduleInfo m).file)

/-- Walks from each of some modules in turn. -/
def walkAll (visit : ModuleId → List ModuleId → List ModuleId × List ModuleId) :
    List ModuleId → List ModuleId → List ModuleId × List ModuleId
  | [], seen => ([], seen)
  | next :: rest, seen =>
    let first := visit next seen
    let others := walkAll visit rest first.2
    (first.1 ++ others.1, others.2)

/-- A walk from a module along `export *`: the modules it meets that are not in `seen`, and
`seen` with these. -/
def walk (p : Program) : Nat → ModuleId → List ModuleId → List ModuleId × List ModuleId
  | 0, _, seen => ([], seen)
  | fuel + 1, m, seen =>
    if seen.contains m then ([], seen)
    else
      let others := walkAll (p.walk fuel) (p.passed m) (m :: seen)
      (m :: others.1, others.2)

/-- The modules a walk from a module meets. -/
def met (p : Program) (m : ModuleId) : List ModuleId := (p.walk (p.modules.size + 1) m []).1

theorem foldl_stars {β : Type} (f : β → ModuleId → β) (m : ModuleId) (b : β) :
    (p.moduleInfo m).stars.foldl (fun acc spec =>
      match p.resolve? (p.moduleInfo m).file spec with
      | some next => f acc next
      | none => acc) b = (p.passed m).foldl f b := by
  rw [passed, List.foldl_filterMap]
  congr 1
  funext acc spec
  cases p.resolve? (p.moduleInfo m).file spec <;> rfl

/-- A fold that takes up what is met from each module in turn takes up what is met from all. -/
theorem foldl_walkAll {β : Type} {visit : ModuleId → List ModuleId → List ModuleId × List ModuleId}
    {step : β × List ModuleId → ModuleId → β × List ModuleId} (take : β → List ModuleId → β)
    (hnil : ∀ b, take b [] = b) (happend : ∀ b ms ms', take b (ms ++ ms') = take (take b ms) ms')
    (hstep : ∀ b seen next,
      step (b, seen) next = (take b (visit next seen).1, (visit next seen).2))
    (nexts seen : List ModuleId) (b : β) :
    nexts.foldl step (b, seen) =
      (take b (walkAll visit nexts seen).1, (walkAll visit nexts seen).2) := by
  induction nexts generalizing seen b with
  | nil => rw [List.foldl_nil, walkAll, hnil]
  | cons next rest ih => rw [List.foldl_cons, hstep, ih, walkAll, happend]

theorem mem_walkAll {visit : ModuleId → List ModuleId → List ModuleId × List ModuleId} {a : ModuleId}
    (h : a ∈ (walkAll visit nexts seen).1) : ∃ next ∈ nexts, ∃ seen', a ∈ (visit next seen').1 := by
  induction nexts generalizing seen with
  | nil => exact nomatch h
  | cons next rest ih =>
    rcases List.mem_append.mp h with h | h
    · exact ⟨next, List.mem_cons_self, seen, h⟩
    · obtain ⟨n, hn, hmet⟩ := ih h
      exact ⟨n, List.mem_cons_of_mem _ hn, hmet⟩

/-! ### All exports -/

/-- **All exports of a module are those of the modules on the walk.** -/
theorem exportsWithin_eq (fuel : Nat) (m : ModuleId) (seen : List ModuleId) :
    p.exportsWithin fuel m seen =
      ((p.walk fuel m seen).1.flatMap fun m => (p.moduleInfo m).exports.map Prod.snd,
        (p.walk fuel m seen).2) := by
  induction fuel generalizing m seen with
  | zero => rfl
  | succ fuel ih =>
    unfold exportsWithin walk
    split
    · rfl
    · have hfold := foldl_stars (p := p) (fun (acc : List SymbolId × List ModuleId) next =>
        (acc.1 ++ (p.exportsWithin fuel next acc.2).1, (p.exportsWithin fuel next acc.2).2)) m
        ((p.moduleInfo m).exports.map Prod.snd, m :: seen)
      refine Eq.trans hfold ?_
      rw [foldl_walkAll (fun found ms =>
          found ++ ms.flatMap fun m => (p.moduleInfo m).exports.map Prod.snd)
        (fun _ => by simp) (fun _ _ _ => by simp) (fun _ _ _ => by rw [ih]), List.flatMap_cons]

theorem exportsOf_eq (p : Program) (m : ModuleId) :
    p.exportsOf m = (p.met m).flatMap fun m => (p.moduleInfo m).exports.map Prod.snd := by
  rw [exportsOf, exportsWithin_eq, met]

/-! ### The table of a namespace -/

/-- Adds the exports of a module to a table, the first of a name winning. -/
def collect (p : Program) (withDefault : Bool) (table : MemberTable) (m : ModuleId) : MemberTable :=
  (p.moduleInfo m).exports.foldl (fun (t : MemberTable) e =>
    if (e.1 == "default" && !withDefault) || (t.find? e.1).isSome then t
    else t.add e.1 e.2) table

theorem namespaceWithin_succ (withDefault : Bool) (hm : seen.contains m = false)
    (hnext : ∀ next table seen, p.namespaceWithin fuel next false (table, seen) =
      ((p.walk fuel next seen).1.foldl (p.collect false) table, (p.walk fuel next seen).2)) :
    p.namespaceWithin (fuel + 1) m withDefault (table, seen) =
      ((walkAll (p.walk fuel) (p.passed m) (m :: seen)).1.foldl (p.collect false)
          (p.collect withDefault table m),
        (walkAll (p.walk fuel) (p.passed m) (m :: seen)).2) := by
  unfold namespaceWithin
  rw [if_neg (by simpa using hm)]
  refine (foldl_stars (fun acc next => p.namespaceWithin fuel next false acc) m _).trans ?_
  exact foldl_walkAll (fun table ms => ms.foldl (p.collect false) table) (fun _ => rfl)
    (fun _ _ _ => List.foldl_append) (fun _ _ _ => hnext _ _ _) _ _ _

theorem namespaceWithin_eq (fuel : Nat) (m : ModuleId) (table : MemberTable)
    (seen : List ModuleId) :
    p.namespaceWithin fuel m false (table, seen) =
      ((p.walk fuel m seen).1.foldl (p.collect false) table, (p.walk fuel m seen).2) := by
  induction fuel generalizing m table seen with
  | zero => rfl
  | succ fuel ih =>
    cases hm : seen.contains m with
    | true =>
      unfold namespaceWithin walk
      rw [if_pos hm, if_pos hm]
      rfl
    | false =>
      rw [namespaceWithin_succ false hm ih]
      unfold walk
      rw [if_neg (by simpa using hm)]
      rfl

theorem find?_add (table : MemberTable) (name x : String) (s : SymbolId) :
    (table.add name s).find? x = (table.find? x).or (if name = x then some s else none) := by
  simp only [MemberTable.find?, MemberTable.add, List.find?_append, Option.map_or]
  by_cases h : name = x <;> simp [h]

/-- What a module adds to a table: its export of a name, unless the table has the name. -/
theorem find?_collect (withDefault : Bool) (table : MemberTable) (m : ModuleId) (x : String) :
    (p.collect withDefault table m).find? x =
      (table.find? x).or
        (if x = "default" ∧ withDefault = false then none else (p.moduleInfo m).ownExport? x) := by
  unfold collect Module.ownExport?
  induction (p.moduleInfo m).exports generalizing table with
  | nil => simp
  | cons e exports ih =>
    rw [List.foldl_cons, ih]
    by_cases hx : e.1 = x
    · subst hx
      cases hfound : table.find? e.1 with
      | some known => simp [hfound]
      | none =>
        by_cases hdefault : e.1 = "default" ∧ withDefault = false
        · rw [hdefault.1] at hfound
          simp [hdefault, hfound]
        · have hskip : (e.1 == "default" && !withDefault) = false := by simpa using hdefault
          simp [hskip, hfound, find?_add, hdefault]
    · have hother : ((if ((e.1 == "default" && !withDefault) || (table.find? e.1).isSome) = true
          then table else table.add e.1 e.2).find? x) = table.find? x := by
        split
        · rfl
        · simp [find?_add, hx]
      rw [hother, List.find?_cons_of_neg (by simpa using hx)]

theorem find?_foldl_collect (table : MemberTable) (ms : List ModuleId) (x : String) :
    (ms.foldl (p.collect false) table).find? x =
      (table.find? x).or
        (if x = "default" then none else ms.findSome? fun m => (p.moduleInfo m).ownExport? x) := by
  induction ms generalizing table with
  | nil => simp
  | cons m ms ih =>
    rw [List.foldl_cons, ih, find?_collect]
    by_cases hx : x = "default"
    · simp [hx]
    · cases hown : (p.moduleInfo m).ownExport? x <;> simp [hx, hown]

/-! ### The first export of a name -/

theorem walk_succ (hm : seen.contains m = false) :
    p.walk (fuel + 1) m seen =
      (m :: (walkAll (p.walk fuel) (p.passed m) (m :: seen)).1,
        (walkAll (p.walk fuel) (p.passed m) (m :: seen)).2) := by
  unfold walk
  rw [if_neg (by simpa using hm)]

/-- One step of the search for a name: nothing, once it is found. -/
def searchStep (p : Program) (name : String) (fuel : Nat) (acc : Option SymbolId × List ModuleId)
    (next : ModuleId) : Option SymbolId × List ModuleId :=
  match acc.1 with
  | some s => (some s, acc.2)
  | none => p.exportWithin name fuel next acc.2

theorem exportWithin_succ (hname : name ≠ "default") (hm : seen.contains m = false) :
    p.exportWithin name (fuel + 1) m seen =
      match (p.moduleInfo m).ownExport? name with
      | some s => (some s, m :: seen)
      | none => (p.passed m).foldl (p.searchStep name fuel) (none, m :: seen) := by
  have hstep := foldl_stars (p := p) (p.searchStep name fuel) m (none, m :: seen)
  unfold exportWithin
  rw [if_neg (by simpa using hm), ← hstep]
  dsimp only
  cases (p.moduleInfo m).ownExport? name with
  | some s => rfl
  | none =>
    dsimp only
    rw [if_neg (by simpa using hname)]
    congr 1
    funext ⟨found, seen⟩ spec
    cases found <;> cases p.resolve? (p.moduleInfo m).file spec <;> rfl

theorem foldl_searchStep_some (s : SymbolId) (nexts seen : List ModuleId) :
    (nexts.foldl (p.searchStep name fuel) (some s, seen)).1 = some s := by
  induction nexts with
  | nil => rfl
  | cons next rest ih => exact ih

/-- What a search has found is the first export of the name among what a walk has met, and if
there is none the search has met the same. -/
def Searched (p : Program) (name : String) (found : Option SymbolId × List ModuleId)
    (walked : List ModuleId × List ModuleId) : Prop :=
  found.1 = walked.1.findSome? (fun m => (p.moduleInfo m).ownExport? name) ∧
    (found.1 = none → found.2 = walked.2)

theorem searched_foldl
    (h : ∀ m seen, p.Searched name (p.exportWithin name fuel m seen) (p.walk fuel m seen))
    (nexts seen : List ModuleId) :
    p.Searched name (nexts.foldl (p.searchStep name fuel) (none, seen))
      (walkAll (p.walk fuel) nexts seen) := by
  induction nexts generalizing seen with
  | nil => exact ⟨rfl, fun _ => rfl⟩
  | cons next rest ih =>
    obtain ⟨hfound, hseen⟩ := h next seen
    have hfirst : p.searchStep name fuel (none, seen) next = p.exportWithin name fuel next seen := rfl
    rw [List.foldl_cons, hfirst, walkAll, Searched, List.findSome?_append, ← hfound]
    cases hcase : p.exportWithin name fuel next seen with
    | mk found seen' =>
      rw [hcase] at hseen
      cases found with
      | some s =>
        rw [foldl_searchStep_some]
        exact ⟨rfl, nofun⟩
      | none =>
        have hsame : seen' = (p.walk fuel next seen).2 := hseen rfl
        rw [hsame]
        exact ih _

/-- **The search for a name** finds the first export of the name on the walk. -/
theorem searched_exportWithin (hname : name ≠ "default") (fuel : Nat) (m : ModuleId)
    (seen : List ModuleId) :
    p.Searched name (p.exportWithin name fuel m seen) (p.walk fuel m seen) := by
  induction fuel generalizing m seen with
  | zero => exact ⟨rfl, fun _ => rfl⟩
  | succ fuel ih =>
    cases hm : seen.contains m with
    | true =>
      unfold exportWithin walk
      rw [if_pos hm, if_pos hm]
      exact ⟨rfl, fun _ => rfl⟩
    | false =>
      rw [exportWithin_succ hname hm, walk_succ hm, Searched, List.findSome?_cons]
      cases (p.moduleInfo m).ownExport? name with
      | some s => exact ⟨rfl, nofun⟩
      | none => exact searched_foldl ih _ _

/-! ### Where the walk leads -/

/-- `export *` leads from the one module to the other. -/
def PassesOn (p : Program) (m next : ModuleId) : Prop := next ∈ p.passed m

/-- How many modules of the program are not in `seen`. -/
def unseen (p : Program) (seen : List ModuleId) : Nat :=
  ((Finset.range p.modules.size).filter fun i => (⟨i⟩ : ModuleId) ∉ seen).card

theorem unseen_le (h : ∀ a ∈ seen, a ∈ nexts) : p.unseen nexts ≤ p.unseen seen := by
  refine Finset.card_le_card fun i hi => ?_
  rw [Finset.mem_filter] at hi ⊢
  exact ⟨hi.1, fun hseen => hi.2 (h _ hseen)⟩

theorem unseen_cons_lt (hm : m.idx < p.modules.size) (hnew : m ∉ seen) :
    p.unseen (m :: seen) < p.unseen seen := by
  refine Finset.card_lt_card ⟨fun i hi => ?_, fun hsub => ?_⟩
  · rw [Finset.mem_filter] at hi ⊢
    exact ⟨hi.1, fun hseen => hi.2 (List.mem_cons_of_mem _ hseen)⟩
  · have hleft := hsub (Finset.mem_filter.mpr ⟨Finset.mem_range.mpr hm, hnew⟩)
    exact (Finset.mem_filter.mp hleft).2 List.mem_cons_self

/-- Nothing is passed on by a module that is not in the program. -/
theorem idx_lt_of_passesOn (h : p.PassesOn m next) : m.idx < p.modules.size := by
  by_contra hm
  have hinfo : p.moduleInfo m = default := getD_of_size_le (Nat.le_of_not_lt hm)
  rw [PassesOn, passed, hinfo] at h
  exact List.not_mem_nil h

/-- What a walk has met has been followed to its end. -/
structure Followed (p : Program) (seen : List ModuleId) (r : List ModuleId × List ModuleId) :
    Prop where
  mem_iff : ∀ a, a ∈ r.2 ↔ a ∈ seen ∨ a ∈ r.1
  closed : ∀ a ∈ r.1, ∀ b, p.PassesOn a b → b ∈ r.2

theorem followed_walkAll {visit : ModuleId → List ModuleId → List ModuleId × List ModuleId}
    (nexts : List ModuleId)
    (hvisit : ∀ next seen, p.unseen seen < fuel →
      p.Followed seen (visit next seen) ∧ next ∈ (visit next seen).2)
    (hfuel : p.unseen seen < fuel) :
    p.Followed seen (walkAll visit nexts seen) ∧ ∀ next ∈ nexts, next ∈ (walkAll visit nexts seen).2 := by
  induction nexts generalizing seen with
  | nil => exact ⟨⟨fun a => by simp [walkAll], fun a ha => nomatch ha⟩, fun _ h => nomatch h⟩
  | cons next rest ih =>
    obtain ⟨hfirst, hnext⟩ := hvisit next seen hfuel
    have hless : p.unseen (visit next seen).2 < fuel :=
      (unseen_le fun a ha => (hfirst.mem_iff a).mpr (.inl ha)).trans_lt hfuel
    obtain ⟨hothers, hrest⟩ := ih hless
    rw [walkAll]
    refine ⟨⟨fun a => ?_, fun a ha b hab => ?_⟩, fun a ha => ?_⟩
    · rw [hothers.mem_iff, hfirst.mem_iff, List.mem_append, or_assoc]
    · rcases List.mem_append.mp ha with ha | ha
      · exact (hothers.mem_iff b).mpr (.inl (hfirst.closed a ha b hab))
      · exact hothers.closed a ha b hab
    · rcases List.mem_cons.mp ha with rfl | ha
      · exact (hothers.mem_iff a).mpr (.inl hnext)
      · exact hrest a ha

/-- **The walk has steps enough:** it follows what it meets to the end. -/
theorem followed_walk (hfuel : p.unseen seen < fuel) :
    p.Followed seen (p.walk fuel m seen) ∧ m ∈ (p.walk fuel m seen).2 := by
  induction fuel generalizing m seen with
  | zero => exact absurd hfuel (Nat.not_lt_zero _)
  | succ fuel ih =>
    cases hm : seen.contains m with
    | true =>
      unfold walk
      rw [if_pos hm]
      exact ⟨⟨fun a => by simp, fun a ha => nomatch ha⟩, by simpa using hm⟩
    | false =>
      have hnew : m ∉ seen := by simpa using hm
      rw [walk_succ hm]
      by_cases hin : m.idx < p.modules.size
      · have hless : p.unseen (m :: seen) < fuel :=
          (unseen_cons_lt hin hnew).trans_le (Nat.le_of_lt_succ hfuel)
        obtain ⟨hothers, hall⟩ := followed_walkAll (p.passed m)
          (fun next seen hseen => ih (m := next) hseen) hless
        refine ⟨⟨fun a => ?_, fun a ha b hab => ?_⟩, (hothers.mem_iff m).mpr (.inl List.mem_cons_self)⟩
        · rw [hothers.mem_iff, List.mem_cons, List.mem_cons]
          tauto
        · rcases List.mem_cons.mp ha with rfl | ha
          · exact hall b hab
          · exact hothers.closed a ha b hab
      · have hnone : p.passed m = [] :=
          List.eq_nil_iff_forall_not_mem.mpr fun next h => hin (idx_lt_of_passesOn h)
        rw [hnone]
        refine ⟨⟨fun a => ?_, fun a ha b hab => ?_⟩, List.mem_cons_self⟩
        · simp [walkAll, or_comm]
        · rw [walkAll, List.mem_singleton] at ha
          exact absurd (idx_lt_of_passesOn (ha ▸ hab)) hin

theorem reached_of_mem_walk {a : ModuleId} (ha : a ∈ (p.walk fuel m seen).1) :
    ReflTransGen p.PassesOn m a := by
  induction fuel generalizing m seen with
  | zero => exact nomatch ha
  | succ fuel ih =>
    cases hm : seen.contains m with
    | true =>
      unfold walk at ha
      rw [if_pos hm] at ha
      exact nomatch ha
    | false =>
      rw [walk_succ hm] at ha
      rcases List.mem_cons.mp ha with rfl | ha
      · exact .refl
      · obtain ⟨next, hnext, _, hmet⟩ := mem_walkAll ha
        exact .head hnext (ih hmet)

/-- **The walk from a module meets the modules that `export *` leads to.** -/
theorem mem_met_iff (p : Program) (m a : ModuleId) :
    a ∈ p.met m ↔ ReflTransGen p.PassesOn m a := by
  refine ⟨reached_of_mem_walk, fun hreach => ?_⟩
  have hfuel : p.unseen [] < p.modules.size + 1 :=
    Nat.lt_succ_of_le ((Finset.card_filter_le _ _).trans (Finset.card_range _).le)
  obtain ⟨hfollowed, hm⟩ := followed_walk (m := m) hfuel
  have hmet (b : ModuleId) : b ∈ (p.walk (p.modules.size + 1) m []).2 ↔ b ∈ p.met m := by
    rw [hfollowed.mem_iff]
    simp [met]
  induction hreach with
  | refl => exact (hmet m).mp hm
  | tail _ hstep ih => exact (hmet _).mp (hfollowed.closed _ ih _ hstep)

/-! ### What is found under a name -/

theorem met_eq (p : Program) (m : ModuleId) :
    p.met m = m :: (walkAll (p.walk p.modules.size) (p.passed m) [m]).1 := by
  rw [met, walk_succ (by simp)]

theorem export?_default (p : Program) (m : ModuleId) :
    p.export? m "default" = (p.moduleInfo m).ownExport? "default" := by
  unfold export? exportWithin
  rw [if_neg (by simp)]
  dsimp only
  cases (p.moduleInfo m).ownExport? "default" <;> rfl

/-- **What a module exports under a name** is the first export of that name on the walk. -/
theorem export?_eq (hname : name ≠ "default") (m : ModuleId) :
    p.export? m name = (p.met m).findSome? fun m => (p.moduleInfo m).ownExport? name :=
  (searched_exportWithin hname _ m []).1

/-- **Named and namespace imports see the same exports.** -/
theorem find?_namespaceTable (p : Program) (m : ModuleId) (x : String) :
    (p.namespaceTable m).find? x = p.export? m x := by
  have hempty : (({} : MemberTable)).find? x = none := rfl
  rw [namespaceTable, namespaceWithin_succ true (by simp) (fun _ _ _ => namespaceWithin_eq _ _ _ _),
    find?_foldl_collect, find?_collect, hempty, Option.none_or]
  by_cases hx : x = "default"
  · subst hx
    rw [export?_default]
    simp
  · rw [export?_eq hx, met_eq, List.findSome?_cons]
    cases (p.moduleInfo m).ownExport? x <;> simp [hx]

/-- **What can be imported by name is listed among all exports.** -/
theorem mem_exportsOf_of_export? (h : p.export? m x = some s) : s ∈ p.exportsOf m := by
  have hown : ∃ m' ∈ p.met m, (p.moduleInfo m').ownExport? x = some s := by
    by_cases hx : x = "default"
    · subst hx
      rw [export?_default] at h
      exact ⟨m, by simp [met_eq], h⟩
    · rw [export?_eq hx] at h
      exact List.exists_of_findSome?_eq_some h
  obtain ⟨m', hm', hown⟩ := hown
  obtain ⟨e, he, rfl⟩ := Option.map_eq_some_iff.mp hown
  rw [exportsOf_eq]
  exact List.mem_flatMap.mpr ⟨m', hm', List.mem_map_of_mem (List.mem_of_find?_eq_some he)⟩

theorem mem_ambientExports_of_export? {module : String} (hm : p.ambientByName[module]? = some m)
    (h : p.export? m x = some s) : s ∈ p.ambientExports module := by
  rw [ambientExports, hm]
  exact mem_exportsOf_of_export? h

/-- **A name is exported** just when `export *` leads to a module that exports it itself. -/
theorem export?_isSome_iff (hname : name ≠ "default") (m : ModuleId) :
    (p.export? m name).isSome = true ↔
      ∃ a, ReflTransGen p.PassesOn m a ∧ ((p.moduleInfo a).ownExport? name).isSome = true := by
  rw [export?_eq hname, List.findSome?_isSome_iff]
  simp only [mem_met_iff]

/-- A module's own export of a name comes before those it passes on. -/
theorem export?_of_ownExport? (h : (p.moduleInfo m).ownExport? x = some s) :
    p.export? m x = some s := by
  by_cases hx : x = "default"
  · subst hx
    rw [export?_default, h]
  · rw [export?_eq hx, met_eq, List.findSome?_cons, h]

/-- Making a module's exports the members of its symbol makes them known by these names. -/
theorem member?_ensureNamespace {src : Source} (x : String)
    (hsymbol : (p.moduleInfo m).symbol.idx < p.symbols.size)
    (hnone : (p.symbol (p.moduleInfo m).symbol).members = none) :
    ((Query.ensureNamespace m : Query src [] Unit).run p).2.member? (p.moduleInfo m).symbol x =
      p.export? m x := by
  have hrun : ((Query.ensureNamespace m : Query src [] Unit).run p).2 =
      (p.addTable (p.namespaceTable m)).modifySymbol (p.moduleInfo m).symbol
        fun y => { y with members := some ⟨p.tables.size⟩ } := by
    change (if (p.symbol (p.moduleInfo m).symbol).members.isSome then _ else _ : Unit × Program).2 = _
    rw [hnone]
    rfl
  have hmembers : ((p.addTable (p.namespaceTable m)).modifySymbol (p.moduleInfo m).symbol
      fun y => { y with members := some ⟨p.tables.size⟩ }).symbol (p.moduleInfo m).symbol =
      { p.symbol (p.moduleInfo m).symbol with members := some ⟨p.tables.size⟩ } :=
    (symbol_modifySymbol _).trans (if_pos ⟨rfl, hsymbol⟩)
  have htable : ((p.addTable (p.namespaceTable m)).modifySymbol (p.moduleInfo m).symbol
      fun y => { y with members := some ⟨p.tables.size⟩ }).table ⟨p.tables.size⟩ =
      p.namespaceTable m := (table_addTable _).trans (if_pos rfl)
  rw [hrun, Program.member?, hmembers]
  dsimp only [Option.bind_some]
  rw [htable, find?_namespaceTable]

/-- What a module exports under a name, by all the ways to ask for it. -/
structure ExportsAgree (p : Program) : Prop where
  /-- The members of the module as a namespace. -/
  table : ∀ m x, (p.namespaceTable m).find? x = p.export? m x
  /-- They become the members of the symbol of the module, if that has none yet. -/
  member? : ∀ m x (src : Source), (p.moduleInfo m).symbol.idx < p.symbols.size →
    (p.symbol (p.moduleInfo m).symbol).members = none →
    ((Query.ensureNamespace m : Query src [] Unit).run p).2.member? (p.moduleInfo m).symbol x =
      p.export? m x
  /-- `default` is never passed on. -/
  default_ : ∀ m, p.export? m "default" = (p.moduleInfo m).ownExport? "default"
  /-- The module's own exports come first. -/
  own : ∀ m x s, (p.moduleInfo m).ownExport? x = some s → p.export? m x = some s
  /-- Other names are exported if a module that `export *` leads to exports them. -/
  passedOn : ∀ m x, x ≠ "default" → ((p.export? m x).isSome = true ↔
    ∃ a, ReflTransGen p.PassesOn m a ∧ ((p.moduleInfo a).ownExport? x).isSome = true)
  /-- What a file exports under a name is among all its exports, -/
  listed : ∀ (f : FileId) x s, p.export? ⟨f.idx⟩ x = some s → s ∈ p.exportsOfFile f
  /-- and so is what an ambient module exports. -/
  listedAmbient : ∀ module m x s, p.ambientByName[module]? = some m → p.export? m x = some s →
    s ∈ p.ambientExports module
  /-- The public surface starts from what can be imported from its root files. -/
  root : ∀ files opts f x s, f ∈ (if opts.roots.isEmpty then files else opts.roots) →
    p.export? ⟨f.idx⟩ x = some s → ∃ phase ∈ checker.phases files opts, .symbol s ∈ phase p
  /-- It starts from what can be imported from its external modules, too. -/
  rootAmbient : ∀ files opts module m x s, module ∈ opts.externalModules →
    p.ambientByName[module]? = some m → p.export? m x = some s →
    ∃ phase ∈ checker.phases files opts, .symbol s ∈ phase p

/-- **Named imports, namespace imports and the list of exports agree,** whatever the modules
pass on to each other. -/
theorem exportsAgree (p : Program) : p.ExportsAgree where
  table := p.find?_namespaceTable
  member? _ x _ := member?_ensureNamespace x
  default_ := p.export?_default
  own _ _ _ := export?_of_ownExport?
  passedOn m _ hx := export?_isSome_iff hx m
  listed _ _ _ := mem_exportsOf_of_export?
  listedAmbient _ _ _ _ hm h := mem_ambientExports_of_export? hm h
  root files opts f x s hf h := by
    have hphase : (fun p => ((if opts.roots.isEmpty then files else opts.roots).flatMap
        (checker.exports p)).map Item.symbol) ∈ checker.phases files opts := by
      simp [Checker.phases]
    exact ⟨_, hphase, List.mem_map_of_mem (List.mem_flatMap.mpr ⟨f, hf, mem_exportsOf_of_export? h⟩)⟩
  rootAmbient files opts module m x s hmodule hm h := by
    have hphase : (fun p => (opts.externalModules.flatMap (checker.ambientExports p)).map
        Item.symbol) ∈ checker.phases files opts := by
      simp [Checker.phases]
    exact ⟨_, hphase, List.mem_map_of_mem
      (List.mem_flatMap.mpr ⟨module, hmodule, mem_ambientExports_of_export? hm h⟩)⟩

end Program
end Moniker
