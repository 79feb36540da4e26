/-
# The order of a search

A type leads to the bases of an object, to the parts of a union or an intersection and to
the constraint of a type parameter (`Program.Leads`).  Those edges may form cycles, and the
search for a property marks each type it enters for all of its branches at once.

The order in which types are entered does not depend on the property: it is the preorder of
the graph, depth first (`Program.Preorder`).  From every type there is exactly one, and it
holds just what the type leads to (`Program.exists_preorder`, `Preorder.unique`,
`Preorder.mem_iff`).  A search follows it and ends with the first type that has the property
itself (`Program.searchAmong_of_walks`).  So a type that one branch passes over because
another one has seen it hides nothing: the search has looked there before
(`Program.property?_preorder`).
-/

import Moniker.Proofs.Hierarchy
import Moniker.Proofs.Termination.Searches

namespace Moniker
namespace Walks

variable {edges : TypeId → List TypeId} {skips : TypeId → Prop} {t : TypeId}
  {ts seen mid result result' : List TypeId}

/-- A walk that skips only what it has entered has one result. -/
theorem unique (h : Walks edges (fun _ => False) ts seen result)
    (h' : Walks edges (fun _ => False) ts seen result') : result = result' := by
  induction h generalizing result' with
  | nil =>
    cases h'
    rfl
  | skip hstop _ ih =>
    cases h' with
    | skip _ hrest => exact ih hrest
    | enter hnew _ _ => exact absurd (hstop.resolve_right not_false) hnew
  | enter hnew _ _ ih₁ ih₂ =>
    cases h' with
    | skip hstop _ => exact absurd (hstop.resolve_right not_false) hnew
    | enter _ hinside hrest =>
      cases ih₁ hinside
      exact ih₂ hrest

/-- What had been entered before is the end of the list. -/
theorem suffix (h : Walks edges skips ts seen result) : seen <:+ result := by
  induction h with
  | nil => exact List.suffix_rfl
  | skip _ _ ih => exact ih
  | enter _ _ _ ih₁ ih₂ => exact ((List.suffix_cons _ _).trans ih₁).trans ih₂

/-- Only what the list leads to is entered. -/
theorem reaches (h : Walks edges skips ts seen result) : ∀ x ∈ result,
    x ∈ seen ∨ ∃ t ∈ ts, Relation.ReflTransGen (fun x y => y ∈ edges x) t x := by
  induction h with
  | nil => exact fun x hx => .inl hx
  | @skip t ts seen result _ _ ih =>
    intro x hx
    rcases ih x hx with hseen | ⟨u, hu, hreach⟩
    · exact .inl hseen
    · exact .inr ⟨u, List.mem_cons_of_mem t hu, hreach⟩
  | @enter t ts seen mid result _ _ _ ih₁ ih₂ =>
    intro x hx
    rcases ih₂ x hx with hmid | ⟨u, hu, hreach⟩
    · rcases ih₁ x hmid with hseen | ⟨u, hu, hreach⟩
      · rcases List.mem_cons.mp hseen with rfl | hseen
        · exact .inr ⟨x, List.mem_cons_self, .refl⟩
        · exact .inl hseen
      · exact .inr ⟨t, List.mem_cons_self, hreach.head hu⟩
    · exact .inr ⟨u, List.mem_cons_of_mem t hu, hreach⟩

end Walks

namespace Program

variable {p : Program} {t u : TypeId} {ts seen mid result order : List TypeId} {name : String}

/-- The search for a property goes from the one type to the other. -/
inductive Leads (p : Program) (t u : TypeId) : Prop where
  | base : (p.typeInfo t).kind = .object → u ∈ (p.typeInfo t).bases → p.Leads t u
  | part : (p.typeInfo t).kind = .union ∨ (p.typeInfo t).kind = .intersection →
    u ∈ (p.typeInfo t).parts → p.Leads t u
  | constraint : (p.typeInfo t).kind = .param → (p.typeInfo t).constraint = some u → p.Leads t u

/-- The types in the order in which a search that finds nothing enters them: a type before
all it leads to, what it leads to one after another, and none twice. -/
def Preorder (p : Program) (t : TypeId) (order : List TypeId) : Prop :=
  Walks (fun x => propertyEdges (p.typeInfo x)) (fun _ => False) [t] [] order.reverse

theorem leads_iff : p.Leads t u ↔ u ∈ propertyEdges (p.typeInfo t) := by
  constructor
  · rintro (⟨hkind, hu⟩ | ⟨hkind | hkind, hu⟩ | ⟨hkind, hu⟩)
    · rwa [propertyEdges, hkind]
    · rwa [propertyEdges, hkind]
    · rwa [propertyEdges, hkind]
    · rw [propertyEdges, hkind]
      exact Option.mem_toList.mpr hu
  · intro hu
    unfold propertyEdges at hu
    split at hu
    · next hkind => exact .base hkind hu
    · next hkind => exact .part (.inl hkind) hu
    · next hkind => exact .part (.inr hkind) hu
    · next hkind => exact .constraint hkind (Option.mem_toList.mp hu)
    · exact absurd hu List.not_mem_nil
    · exact absurd hu List.not_mem_nil

theorem reaches_iff : Relation.ReflTransGen p.Leads t u ↔
    Relation.ReflTransGen (fun x y => y ∈ propertyEdges (p.typeInfo x)) t u := by
  rw [show p.Leads = fun x y => y ∈ propertyEdges (p.typeInfo x) from
    funext fun x => funext fun y => propext leads_iff]

/-! ### There is one order -/

/-- A walk from a type that is not in the program ends there. -/
theorem walks_of_size_le (hge : p.types.size ≤ t.idx) (hnew : t ∉ seen) :
    Walks (fun x => propertyEdges (p.typeInfo x)) (fun _ => False) [t] seen (t :: seen) := by
  refine .enter hnew ?_ .nil
  rw [propertyEdges_of_size_le hge]
  exact .nil

/-- A list has a walk if each of its types has one. -/
theorem exists_walks {room : Nat}
    (heach : ∀ (t : TypeId) {seen : List TypeId}, seen.Nodup → p.types.size ≤ room + p.entered seen →
      ∃ mid, Walks (fun x => propertyEdges (p.typeInfo x)) (fun _ => False) [t] seen mid) :
    ∀ (ts : List TypeId) {seen : List TypeId}, seen.Nodup → p.types.size ≤ room + p.entered seen →
      ∃ result, Walks (fun x => propertyEdges (p.typeInfo x)) (fun _ => False) ts seen result := by
  intro ts
  induction ts with
  | nil => exact fun {seen} _ _ => ⟨seen, .nil⟩
  | cons t ts ih =>
    intro seen hnodup hroom
    obtain ⟨mid, hfirst⟩ := heach t hnodup hroom
    have hmono : p.entered seen ≤ p.entered mid := p.entered_mono hnodup hfirst.kept
    obtain ⟨result, hrest⟩ := ih (hfirst.nodup hnodup) (by omega)
    exact ⟨result, hfirst.cons hrest⟩

/-- Inside a type of the program there is room for one type less, so a walk ends. -/
theorem exists_walk (room : Nat) : ∀ (t : TypeId) {seen : List TypeId}, seen.Nodup →
    p.types.size ≤ room + p.entered seen →
    ∃ mid, Walks (fun x => propertyEdges (p.typeInfo x)) (fun _ => False) [t] seen mid := by
  induction room with
  | zero =>
    intro t seen hnodup hroom
    by_cases hold : t ∈ seen
    · exact ⟨seen, .skip (.inl hold) .nil⟩
    · rcases Nat.lt_or_ge t.idx p.types.size with hlt | hge
      · have hle : p.entered (t :: seen) ≤ p.types.size :=
          p.entered_le (List.nodup_cons.mpr ⟨hold, hnodup⟩)
        have hcons := p.entered_cons hlt seen
        omega
      · exact ⟨t :: seen, walks_of_size_le hge hold⟩
  | succ room ih =>
    intro t seen hnodup hroom
    by_cases hold : t ∈ seen
    · exact ⟨seen, .skip (.inl hold) .nil⟩
    · rcases Nat.lt_or_ge t.idx p.types.size with hlt | hge
      · have hcons := p.entered_cons hlt seen
        obtain ⟨mid, hinside⟩ := exists_walks ih (propertyEdges (p.typeInfo t))
          (List.nodup_cons.mpr ⟨hold, hnodup⟩) (by omega)
        exact ⟨mid, .enter hold hinside .nil⟩
      · exact ⟨t :: seen, walks_of_size_le hge hold⟩

/-- **Every type has a preorder,** whatever cycles there are. -/
theorem exists_preorder (p : Program) (t : TypeId) : ∃ order, p.Preorder t order := by
  obtain ⟨result, hwalk⟩ := p.exists_walk p.types.size t .nil (Nat.le_add_right _ _)
  exact ⟨result.reverse, by rwa [Preorder, List.reverse_reverse]⟩

namespace Preorder

theorem unique {order' : List TypeId} (h : p.Preorder t order) (h' : p.Preorder t order') :
    order' = order := List.reverse_injective (Walks.unique h' h)

theorem nodup (h : p.Preorder t order) : order.Nodup :=
  List.nodup_reverse.mp (Walks.nodup h .nil)

/-- **The preorder holds what the type leads to,** and nothing else. -/
theorem mem_iff (h : p.Preorder t order) : u ∈ order ↔ Relation.ReflTransGen p.Leads t u := by
  rw [reaches_iff]
  constructor
  · intro hu
    rcases Walks.reaches h u (List.mem_reverse.mpr hu) with hnil | ⟨x, hx, hreach⟩
    · exact absurd hnil List.not_mem_nil
    · rwa [List.mem_singleton.mp hx] at hreach
  · intro hreach
    exact List.mem_reverse.mp (Walks.mem_of_reaches h not_false
      (hreach.lift id fun _ _ hstep => ⟨hstep, not_false⟩))

end Preorder

/-! ### The search follows it -/

/-- The search for a property from the types of a list one after another. -/
def searchAmong (p : Program) (name : String) (fuel : Nat) (ts seen : List TypeId) :
    Option SymbolId × List TypeId :=
  ts.foldl (fun (found, seen) next =>
    match found with
    | some m => (some m, seen)
    | none => p.propertyWithin name fuel next seen) (none, seen)

/-- What the first of the types that have the property has under the name. -/
def firstOwn? (p : Program) (name : String) (ts : List TypeId) : Option SymbolId :=
  ts.findSome? fun t => p.ownProperty? (p.typeInfo t) name

theorem firstOwn?_eq_none_iff : p.firstOwn? name ts = none ↔ p.Lack name ts :=
  List.findSome?_eq_none_iff

/-- What the types entered lack has to come from the type entered next. -/
theorem firstOwn?_reverse_cons (hlack : p.Lack name seen) :
    p.firstOwn? name (t :: seen).reverse = p.ownProperty? (p.typeInfo t) name := by
  have hnone : p.firstOwn? name seen.reverse = none :=
    firstOwn?_eq_none_iff.mpr fun x hx => hlack x (List.mem_reverse.mp hx)
  rw [firstOwn?] at hnone ⊢
  rw [List.reverse_cons, List.findSome?_append, hnone, Option.none_or, List.findSome?_singleton]

/-- What is found among the types entered so far is what is found in the end. -/
theorem firstOwn?_reverse_of_suffix {m : SymbolId} (hsuffix : mid <:+ result)
    (h : p.firstOwn? name mid.reverse = some m) : p.firstOwn? name result.reverse = some m := by
  obtain ⟨later, rfl⟩ := hsuffix
  rw [firstOwn?] at h ⊢
  rw [List.reverse_append, List.findSome?_append, h, Option.some_or]

theorem searchAmong_cons_found {fuel : Nat} {m : SymbolId}
    (h : (p.propertyWithin name fuel t seen).1 = some m) :
    (p.searchAmong name fuel (t :: ts) seen).1 = some m := by
  obtain ⟨found, seen', hstep⟩ : ∃ found seen', p.propertyWithin name fuel t seen = (found, seen') :=
    ⟨_, _, rfl⟩
  rw [hstep] at h
  cases h
  rw [searchAmong, List.foldl_cons]
  dsimp only
  rw [hstep, foldl_found fun _ _ _ => rfl]

theorem searchAmong_cons_none {fuel : Nat}
    (h : (p.propertyWithin name fuel t seen).1 = none) :
    p.searchAmong name fuel (t :: ts) seen =
      p.searchAmong name fuel ts (p.propertyWithin name fuel t seen).2 := by
  obtain ⟨found, seen', hstep⟩ : ∃ found seen', p.propertyWithin name fuel t seen = (found, seen') :=
    ⟨_, _, rfl⟩
  rw [hstep] at h
  cases h
  rw [searchAmong, List.foldl_cons]
  dsimp only
  rw [hstep]
  rfl

theorem propertyWithin_own {fuel : Nat} {m : SymbolId} (hnew : t ∉ seen)
    (hown : p.ownProperty? (p.typeInfo t) name = some m) :
    p.propertyWithin name (fuel + 1) t seen = (some m, t :: seen) := by
  rw [propertyWithin, if_neg (by rwa [List.contains_iff_mem])]
  dsimp only
  rw [hown]

/-- A type that is new and lacks the property leads on. -/
theorem propertyWithin_through {fuel : Nat} (hnew : t ∉ seen)
    (hown : p.ownProperty? (p.typeInfo t) name = none) :
    p.propertyWithin name (fuel + 1) t seen =
      p.searchAmong name fuel (propertyEdges (p.typeInfo t)) (t :: seen) := by
  rw [propertyWithin, if_neg (by rwa [List.contains_iff_mem])]
  dsimp only
  rw [hown]
  rfl

theorem propertyWithin_old {fuel : Nat} (hold : t ∈ seen) :
    p.propertyWithin name fuel t seen = (none, seen) := by
  cases fuel with
  | zero => rfl
  | succ fuel => rw [propertyWithin, if_pos (List.contains_iff_mem.mpr hold)]

/-- **A search finds what the first type of the walk has,** and goes all the way if no type
has anything. -/
theorem searchAmong_of_walks
    (h : Walks (fun x => propertyEdges (p.typeInfo x)) (fun _ => False) ts seen result) :
    ∀ fuel, seen.Nodup → ts = [] ∨ p.types.size < fuel + p.entered seen → p.Lack name seen →
      (p.searchAmong name fuel ts seen).1 = p.firstOwn? name result.reverse ∧
      (p.firstOwn? name result.reverse = none → (p.searchAmong name fuel ts seen).2 = result) := by
  induction h with
  | nil =>
    intro fuel _ _ hlack
    have hnone := firstOwn?_eq_none_iff.mpr fun x hx => hlack x (List.mem_reverse.mp hx)
    exact ⟨hnone.symm, fun _ => rfl⟩
  | @skip t ts seen result hstop _ ih =>
    intro fuel hnodup hfuel hlack
    have hpass : p.propertyWithin name fuel t seen = (none, seen) :=
      propertyWithin_old (hstop.resolve_right not_false)
    rw [searchAmong_cons_none (by rw [hpass]), hpass]
    exact ih fuel hnodup (.inr (hfuel.resolve_left (List.cons_ne_nil t ts))) hlack
  | @enter t ts seen mid result hnew hinside hrest ih₁ ih₂ =>
    intro fuel hnodup hfuel hlack
    have hfuel := hfuel.resolve_left (List.cons_ne_nil t ts)
    have hnodup' : (t :: seen).Nodup := List.nodup_cons.mpr ⟨hnew, hnodup⟩
    obtain ⟨fuel, rfl⟩ : ∃ fuel', fuel = fuel' + 1 := by
      have hle := p.entered_le hnodup
      exact ⟨fuel - 1, by omega⟩
    cases hown : p.ownProperty? (p.typeInfo t) name with
    | some m =>
      have hfirst : p.firstOwn? name result.reverse = some m :=
        firstOwn?_reverse_of_suffix (hinside.suffix.trans hrest.suffix)
          ((firstOwn?_reverse_cons hlack).trans hown)
      rw [hfirst]
      exact ⟨searchAmong_cons_found (by rw [propertyWithin_own hnew hown]), fun h => nomatch h⟩
    | none =>
      have hlack' : p.Lack name (t :: seen) := List.forall_mem_cons.mpr ⟨hown, hlack⟩
      -- A type that is not in the program leads nowhere; any other takes up room.
      have hfuel' : propertyEdges (p.typeInfo t) = [] ∨
          p.types.size < fuel + p.entered (t :: seen) := by
        rcases Nat.lt_or_ge t.idx p.types.size with hlt | hge
        · have hcons := p.entered_cons hlt seen
          exact .inr (by omega)
        · exact .inl (propertyEdges_of_size_le hge)
      obtain ⟨hfound, hentered⟩ := ih₁ fuel hnodup' hfuel' hlack'
      rw [← propertyWithin_through hnew hown] at hfound hentered
      cases hmid : p.firstOwn? name mid.reverse with
      | some m =>
        rw [firstOwn?_reverse_of_suffix hrest.suffix hmid]
        exact ⟨searchAmong_cons_found (hfound.trans hmid), fun h => nomatch h⟩
      | none =>
        have hmono : p.entered seen ≤ p.entered mid :=
          p.entered_mono hnodup fun x hx => hinside.kept x (List.mem_cons_of_mem t hx)
        rw [searchAmong_cons_none (hfound.trans hmid), hentered hmid]
        refine ih₂ (fuel + 1) (hinside.nodup hnodup') (.inr (by omega)) fun x hx => ?_
        exact firstOwn?_eq_none_iff.mp hmid x (List.mem_reverse.mpr hx)

/-- The property of a type is that of the first type of the preorder that has one. -/
theorem Preorder.property?_eq (h : p.Preorder t order) :
    p.property? t name = p.firstOwn? name order := by
  have hlack : p.Lack name [] := fun _ hx => nomatch hx
  have hsearch := searchAmong_of_walks h (p.types.size + 1) .nil (.inr (by omega)) hlack
  rw [List.reverse_reverse] at hsearch
  exact hsearch.1

/-- Only an object whose table has the name has a property itself. -/
theorem isSome_ownProperty?_iff : (p.ownProperty? (p.typeInfo u) name).isSome = true ↔
    (p.typeInfo u).kind = .object ∧ ∃ tbl, (p.typeInfo u).members = some tbl ∧
      ((p.table tbl).find? name).isSome = true := by
  unfold ownProperty?
  split
  · next hkind =>
    rw [Option.isSome_bind, Option.any_eq_true]
    exact ⟨fun h => ⟨hkind, h⟩, And.right⟩
  · next hkind =>
    exact ⟨fun h => absurd h Bool.false_ne_true, fun h => absurd h.1 hkind⟩

/-- **The search for a property is complete, and ends, on every graph of types.**  It finds
something if and only if the type leads to an object that has the name in its own table.
What it finds is what the first such type in preorder has, and no bound above the number of
types cuts it off. -/
theorem property?_preorder (p : Program) (t : TypeId) :
    ∃ order, p.Preorder t order ∧ (∀ order', p.Preorder t order' → order' = order) ∧
      order.Nodup ∧ (∀ u, u ∈ order ↔ Relation.ReflTransGen p.Leads t u) ∧
      ∀ name,
        (p.property? t name = order.findSome? fun u => p.ownProperty? (p.typeInfo u) name) ∧
        ((p.property? t name).isSome = true ↔ ∃ u, Relation.ReflTransGen p.Leads t u ∧
          (p.typeInfo u).kind = .object ∧ ∃ tbl, (p.typeInfo u).members = some tbl ∧
            ((p.table tbl).find? name).isSome = true) ∧
        ∀ fuel, p.types.size < fuel → (p.propertyWithin name fuel t []).1 = p.property? t name := by
  obtain ⟨order, horder⟩ := p.exists_preorder t
  refine ⟨order, horder, fun _ => horder.unique, horder.nodup, fun _ => horder.mem_iff,
    fun name => ⟨horder.property?_eq, ?_, fun _ => propertyWithin_eq_property?⟩⟩
  rw [horder.property?_eq, firstOwn?, List.findSome?_isSome_iff]
  constructor
  · rintro ⟨u, hu, hown⟩
    exact ⟨u, horder.mem_iff.mp hu, isSome_ownProperty?_iff.mp hown⟩
  · rintro ⟨u, hreach, hown⟩
    exact ⟨u, horder.mem_iff.mpr hreach, isSome_ownProperty?_iff.mpr hown⟩

end Program
end Moniker
