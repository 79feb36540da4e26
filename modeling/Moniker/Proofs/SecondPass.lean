/-
# A second pass changes nothing

Which new name a candidate gets does not depend on the names the candidates have.
Take two programs that differ in those names at most (`Program.AgreesOff`) and give
the same answers when they are asked what a type extends (`Program.Mirrors`).  Giving
new names to the candidates takes the same course in both: the allocators stay alike
(`Allocator.Same`), and the same names are drawn.

While the general candidates get their names, the hard-private ones do not count as
moving yet.  But their names begin with `#`, and the pools of the general pass never
give out such a name.  So the fixed names of the two programs are the same as far as
the pools can tell (`NamePool.Alike`).

Hence a program whose candidates have the names of a first pass keeps all of them in
the second (`blind_passes`).
-/

import Moniker.Proofs.Allocation
import Moniker.Proofs.Typing.Memory

namespace Moniker

open Program (Later)

/-! ### Two runs at once -/

namespace Build

variable {R : Program → Program → Prop} {V : α → α' → Prop} {W : β → β' → Prop}

/-- From programs in relation the two computations give values in relation and leave
programs in relation. -/
def Pairs (R : Program → Program → Prop) (V : α → α' → Prop) (m : Build α) (m' : Build α') : Prop :=
  ∀ p q, R p q → V (m.value p) (m'.value q) ∧ R (m.after p) (m'.after q)

namespace Pairs

theorem pure {x : α} {y : α'} (h : V x y) : Pairs R V (Pure.pure x) (Pure.pure y) :=
  fun _ _ hR => ⟨h, hR⟩

theorem read {f : Program → α} {f' : Program → α'} (h : ∀ p q, R p q → V (f p) (f' q)) :
    Pairs R V (Build.read f) (Build.read f') :=
  fun p q hR => ⟨h p q hR, hR⟩

theorem bind {m : Build α} {m' : Build α'} {f : α → Build β} {f' : α' → Build β'}
    (hm : Pairs R V m m') (hf : ∀ x y, V x y → Pairs R W (f x) (f' y)) :
    Pairs R W (m >>= f) (m' >>= f') := by
  intro p q hR
  obtain ⟨hV, hafter⟩ := hm p q hR
  exact hf _ _ hV _ _ hafter

theorem mapM {g : γ → Build β} {xs : List γ} (h : ∀ x ∈ xs, Pairs R Eq (g x) (g x)) :
    Pairs R Eq (xs.mapM g) (xs.mapM g) := by
  induction xs with
  | nil => exact pure rfl
  | cons x xs ih =>
    rw [List.mapM_cons]
    refine (h x List.mem_cons_self).bind fun y y' hy => ?_
    refine (ih fun z hz => h z (List.mem_cons_of_mem _ hz)).bind fun ys ys' hys => ?_
    exact pure (by rw [hy, hys])

theorem foldlM {g : β → γ → Build β} {g' : β' → γ → Build β'} {xs : List γ} {b : β} {b' : β'}
    (hb : W b b') (h : ∀ x ∈ xs, ∀ b b', W b b' → Pairs R W (g b x) (g' b' x)) :
    Pairs R W (xs.foldlM g b) (xs.foldlM g' b') := by
  induction xs generalizing b b' with
  | nil => exact pure hb
  | cons x xs ih =>
    rw [List.foldlM_cons, List.foldlM_cons]
    refine (h x List.mem_cons_self b b' hb).bind fun c c' hc => ?_
    exact ih hc fun y hy => h y (List.mem_cons_of_mem _ hy)

end Pairs

/-- What a symbol was found to declare is not worked out again. -/
theorem run_declaredTypeOf {p : Program} {s : SymbolId} {t : TypeId}
    (h : p.declaredTypes[s]? = some t) : (declaredTypeOf s).run p = (some t, p) := by
  obtain ⟨fuel, hsolve⟩ := @Typing.exists_run_solve p.source (.declaredBy s) p
  have hread (f : Option TypeId → Query p.source [] (Option TypeId)) :
      (Query.read (fun q => q.declaredTypes[s]?) >>= f).run p = (f (some t)).run p := by
    rw [← h]
    rfl
  exact hsolve.trans (hread _)

end Build

/-! ### Names that a pool cannot tell apart -/

namespace NamePool

/-- The lists are equally long and have the same names that a pool of this head can
give out. -/
structure Alike (head : String) (names names' : List String) : Prop where
  length : names'.length = names.length
  mem : ∀ i, ({ head := head, next := i } : NamePool).current ∈ names' ↔
    ({ head := head, next := i } : NamePool).current ∈ names

namespace Alike

variable {head : String} {names names' : List String}

theorem refl (head : String) (names : List String) : Alike head names names := ⟨rfl, fun _ => .rfl⟩

theorem append {more more' : List String} (h : Alike head names names')
    (hmore : Alike head more more') : Alike head (names ++ more) (names' ++ more') where
  length := by rw [List.length_append, List.length_append, h.length, hmore.length]
  mem i := by rw [List.mem_append, List.mem_append, h.mem, hmore.mem]

theorem flatMap {f f' : γ → List String} (h : ∀ x, Alike head (f x) (f' x)) (xs : List γ) :
    Alike head (xs.flatMap f) (xs.flatMap f') := by
  induction xs with
  | nil => exact .refl _ _
  | cons x xs ih => exact (h x).append ih

/-- Names drawn avoiding either list are the same. -/
theorem drawAvoiding_eq {pool : NamePool} (h : Alike pool.head names names') :
    pool.drawAvoiding names' = pool.drawAvoiding names := by
  have hdraw (fuel : Nat) : ∀ pool' : NamePool, pool'.head = pool.head →
      pool'.draw names'.contains fuel = pool'.draw names.contains fuel := by
    induction fuel with
    | zero => exact fun _ _ => rfl
    | succ fuel ih =>
      rintro ⟨_, next⟩ rfl
      have hcontains : names'.contains ({ head := pool.head, next := next } : NamePool).current =
          names.contains ({ head := pool.head, next := next } : NamePool).current := by
        rw [Bool.eq_iff_iff, List.contains_iff_mem, List.contains_iff_mem]
        exact h.mem next
      have hrest := ih (advance { head := pool.head, next := next }) rfl
      rw [draw, draw, hcontains, hrest]
  rw [drawAvoiding, drawAvoiding, h.length, hdraw _ pool rfl]

end Alike

theorem head_drawAvoiding (pool : NamePool) (names : List String) :
    (pool.drawAvoiding names).2.head = pool.head := by
  obtain ⟨i, _, _, hrest⟩ := @draws_draw pool names.contains names.length
  rw [drawAvoiding, hrest]

theorem drawAvoiding_ne_empty (pool : NamePool) (names : List String) :
    (pool.drawAvoiding names).1 ≠ "" :=
  (draws_draw names.length).spent.ne_empty

end NamePool

/-- The name begins like that of a hard-private member. -/
def Hashed (name : String) : Prop := ∃ rest, name.toList = '#' :: rest

theorem hash_not_mem_numeral : ∀ n, '#' ∉ numeral n
  | 0, h => by
    rw [numeral_zero] at h
    exact nomatch h
  | n + 1, h => by
    rw [numeral_succ] at h
    rcases List.mem_append.mp h with h | h
    · exact hash_not_mem_numeral _ h
    · have hletter := congrArg Char.toNat (List.mem_singleton.mp h)
      rw [toNat_letter (Nat.mod_lt _ (by omega))] at hletter
      have hhash : '#'.toNat = 35 := rfl
      omega

/-- A pool without a head gives out no name with a hash. -/
theorem Hashed.ne_current {name : String} (h : Hashed name) (i : Nat) :
    ({ next := i } : NamePool).current ≠ name := by
  rintro rfl
  obtain ⟨rest, hrest⟩ := h
  have hmem : '#' ∈ ({ next := i } : NamePool).current.toList := by
    rw [hrest]
    exact List.mem_cons_self
  rw [NamePool.current, minified, String.toList_append] at hmem
  rcases List.mem_append.mp hmem with hmem | hmem
  · simp at hmem
  · rw [String.toList_ofList] at hmem
    exact hash_not_mem_numeral _ hmem

theorem Hashed.ne_empty {name : String} (h : Hashed name) : name ≠ "" := by
  rintro rfl
  obtain ⟨rest, hrest⟩ := h
  exact nomatch hrest

/-! ### Programs that differ in names -/

namespace Program

variable {S asked : Set SymbolId} {R : Program → Program → Prop} {p q : Program}

/-- The programs differ in the names of these symbols at most. -/
structure AgreesOff (S : Set SymbolId) (p q : Program) : Prop where
  fileIds : q.source.fileIds = p.source.fileIds
  fileOf : q.source.fileOf = p.source.fileOf
  unresolved : q.unresolvedNames = p.unresolvedNames
  scopes : q.scopes.size = p.scopes.size
  parent : ∀ c, (q.scope c).parent = (p.scope c).parent
  children : ∀ c, (q.scope c).children = (p.scope c).children
  symbols : ∀ c, (q.scope c).symbols = (p.scope c).symbols
  declarations : q.declarations = p.declarations
  traits : ∀ s, (q.symbol s).traits = (p.symbol s).traits
  decls : ∀ s, (q.symbol s).decls = (p.symbol s).decls
  members : q.membersOf = p.membersOf
  statics : q.staticsOf = p.staticsOf
  types : q.types.size = p.types.size
  intrinsic : q.isIntrinsic = p.isIntrinsic
  bases : ∀ t, (q.typeInfo t).bases = (p.typeInfo t).bases
  typeSymbol : ∀ t, (q.typeInfo t).symbol = (p.typeInfo t).symbol
  typeMembers : q.typeMembers = p.typeMembers
  name : ∀ s ∉ S, (q.symbol s).name = (p.symbol s).name

/-- Programs in the relation differ in the names of these symbols at most, and stay so
while they are asked what the classes, the interfaces and the other symbols asked for
declare; they give the same answers. -/
structure Mirrors (S asked : Set SymbolId) (R : Program → Program → Prop) : Prop where
  agrees : ∀ p q, R p q → AgreesOff S p q
  classes : ∀ p q, R p q → ∀ s,
    ((p.symbol s).has .classDecl || (p.symbol s).has .interfaceDecl) = true → s ∈ asked
  declared : ∀ s ∈ asked, Build.Pairs R Eq (Build.declaredTypeOf s) (Build.declaredTypeOf s)

namespace AgreesOff

theorem outward (h : AgreesOff S p q) : q.outward = p.outward := by
  have hwithin : ∀ fuel c, q.outwardWithin fuel c = p.outwardWithin fuel c := by
    intro fuel
    induction fuel with
    | zero => exact fun _ => rfl
    | succ fuel ih =>
      intro c
      unfold outwardWithin
      rw [h.parent]
      split
      · rfl
      · rw [ih]
  funext c
  rw [Program.outward, Program.outward, hwithin, h.scopes]

theorem scopesInside (h : AgreesOff S p q) (fuel : Nat) (c : ScopeId) :
    Allocator.scopesInside q fuel c = Allocator.scopesInside p fuel c := by
  induction fuel generalizing c with
  | zero => rfl
  | succ fuel ih =>
    unfold Allocator.scopesInside
    rw [h.children, funext ih]

theorem neighbours (h : AgreesOff S p q) (s? : Option ScopeId) :
    Allocator.neighbours q s? = Allocator.neighbours p s? := by
  cases s? with
  | none => rfl
  | some c =>
    unfold Allocator.neighbours
    simp only [h.outward, h.scopesInside, h.scopes, h.symbols]

theorem basesWithin (h : AgreesOff S p q) (fuel : Nat) :
    Allocator.basesWithin q fuel = Allocator.basesWithin p fuel := by
  induction fuel with
  | zero => rfl
  | succ fuel ih =>
    funext t seen
    unfold Allocator.basesWithin
    rw [h.intrinsic, h.bases, ih]

theorem has (h : AgreesOff S p q) (s : SymbolId) (t : Trait) :
    (q.symbol s).has t = (p.symbol s).has t := by
  rw [Symbol.has, Symbol.has, h.traits]

end AgreesOff

section Names

variable {name name' : SymbolId → String} {s : SymbolId}

/-- The program with other names for its symbols. -/
def withNames (p : Program) (name : SymbolId → String) : Program :=
  { p with symbols := p.symbols.mapIdx fun i sym => { sym with name := name ⟨i⟩ } }

theorem symbol_withNames : (p.withNames name).symbol s =
    if s.idx < p.symbols.size then { p.symbol s with name := name s } else p.symbol s := by
  unfold withNames symbol
  simp only [Array.getD_eq_getD_getElem?, Array.getElem?_mapIdx]
  split
  · next h => rw [Array.getElem?_eq_getElem h]; rfl
  · next h => rw [Array.getElem?_eq_none (Nat.le_of_not_lt h)]; rfl

/-- Nothing that makes no use of names can tell the programs apart. -/
theorem symbol_withNames_congr {f : Symbol → α} (hf : ∀ sym n, f { sym with name := n } = f sym)
    (s : SymbolId) : f ((p.withNames name).symbol s) = f (p.symbol s) := by
  rw [symbol_withNames]
  split
  · exact hf _ _
  · rfl

theorem agreesOff_withNames (h : ∀ s ∉ S, name' s = name s) :
    AgreesOff S (p.withNames name) (p.withNames name') where
  fileIds := rfl
  fileOf := rfl
  unresolved := rfl
  scopes := rfl
  parent _ := rfl
  children _ := rfl
  symbols _ := rfl
  declarations := rfl
  traits s := (symbol_withNames_congr (fun _ _ => rfl) s).trans
    (symbol_withNames_congr (fun _ _ => rfl) s).symm
  decls s := (symbol_withNames_congr (fun _ _ => rfl) s).trans
    (symbol_withNames_congr (fun _ _ => rfl) s).symm
  members := funext fun s => by
    have hkept (name : SymbolId → String) :
        ((p.withNames name).symbol s).members = (p.symbol s).members :=
      symbol_withNames_congr (fun _ _ => rfl) s
    rw [membersOf, membersOf, hkept, hkept]
    rfl
  statics := funext fun s => by
    have hkept (name : SymbolId → String) :
        ((p.withNames name).symbol s).statics = (p.symbol s).statics :=
      symbol_withNames_congr (fun _ _ => rfl) s
    rw [staticsOf, staticsOf, hkept, hkept]
    rfl
  types := rfl
  intrinsic := rfl
  bases _ := rfl
  typeSymbol _ := rfl
  typeMembers := rfl
  name s hs := by
    rw [symbol_withNames, symbol_withNames, h s hs]

/-- **Any two assignments of names.** Programs that remember what the symbols asked for
declare mirror each other. -/
theorem mirrors_withNames (h : ∀ s ∉ S, name' s = name s)
    (hclasses : ∀ s, ((p.symbol s).has .classDecl || (p.symbol s).has .interfaceDecl) = true →
      s ∈ asked)
    (hremembered : ∀ s ∈ asked, ∃ t, p.declaredTypes[s]? = some t) :
    Mirrors S asked fun p' q' => p' = p.withNames name ∧ q' = p.withNames name' where
  agrees := by
    rintro _ _ ⟨rfl, rfl⟩
    exact agreesOff_withNames h
  classes := by
    rintro _ _ ⟨rfl, rfl⟩ s hs
    refine hclasses s ?_
    have hkept (t : Trait) : ((p.withNames name).symbol s).has t = (p.symbol s).has t :=
      symbol_withNames_congr (f := fun sym => sym.has t) (fun _ _ => rfl) s
    rwa [hkept, hkept] at hs
  declared := by
    rintro s hs _ _ ⟨rfl, rfl⟩
    obtain ⟨t, ht⟩ := hremembered s hs
    have hrun (name : SymbolId → String) := Build.run_declaredTypeOf (p := p.withNames name) ht
    rw [Build.value, Build.value, Build.after, Build.after, hrun, hrun]
    exact ⟨rfl, rfl, rfl⟩

end Names
end Program

namespace Allocator

variable {S asked : Set SymbolId} {R : Program → Program → Prop} {p q : Program} {a a' : Allocator}
  {d : Domain} {e : Entry}

open Program (AgreesOff Mirrors)
open Build (Pairs)
open NamePool (Alike)

/-- Symbols that keep their names have the same in both programs, or names that no pool
of the head gives out. -/
def Blind (head : String) (moving : KeySet SymbolId) (p q : Program) : Prop :=
  ∀ s ∉ moving, (q.symbol s).name = (p.symbol s).name ∨
    ∀ i, ({ head := head, next := i } : NamePool).current ≠ (p.symbol s).name ∧
      ({ head := head, next := i } : NamePool).current ≠ (q.symbol s).name

section Moving

variable {moving : KeySet SymbolId} {head : String} (ha : a.moving = moving)
  (ha' : a'.moving = moving) (h : Blind head moving p q)

include ha ha' h

theorem fixedNames_alike (syms : List SymbolId) :
    Alike head (a.fixedNames p syms) (a'.fixedNames q syms) := by
  unfold fixedNames
  rw [ha, ha']
  have hpart : ∀ s ∈ syms.filter fun s => !moving.contains s, s ∉ moving := by
    intro s hs
    have := (List.mem_filter.mp hs).2
    simpa using this
  generalize syms.filter (fun s => !moving.contains s) = rest at hpart
  induction rest with
  | nil => exact .refl _ _
  | cons s rest ih =>
    have hrest := ih fun t ht => hpart t (List.mem_cons_of_mem _ ht)
    refine ⟨by rw [List.map_cons, List.map_cons, List.length_cons, List.length_cons, hrest.length],
      fun i => ?_⟩
    rw [List.map_cons, List.map_cons, List.mem_cons, List.mem_cons, hrest.mem]
    rcases h s (hpart s List.mem_cons_self) with heq | hne
    · rw [heq]
    · rw [or_iff_right (hne i).1, or_iff_right (hne i).2]

theorem lexicalNames_alike (hpq : AgreesOff S p q) (s? : Option ScopeId) :
    Alike head (a.lexicalNames p s?) (a'.lexicalNames q s?) := by
  unfold lexicalNames
  rw [hpq.neighbours]
  exact fixedNames_alike ha ha' h _

theorem memberNames_alike (hpq : AgreesOff S p q) (hard : Bool) (owner : SymbolId) :
    Alike head (a.memberNames p hard owner) (a'.memberNames q hard owner) := by
  unfold memberNames
  simp only [hpq.members, hpq.statics, hpq.has]
  exact fixedNames_alike ha ha' h _

theorem baseNames_alike (hpq : AgreesOff S p q) (base : TypeId) :
    Alike head (a.baseNames p base) (a'.baseNames q base) := by
  unfold baseNames
  rw [hpq.basesWithin, hpq.types, hpq.typeMembers]
  exact fixedNames_alike ha ha' h _

end Moving

/-- What extends what is the same in both programs. -/
theorem findHeirs_pairs (hM : Mirrors S asked R) : Pairs R Eq findHeirs findHeirs := by
  unfold findHeirs
  refine Pairs.bind (V := fun src src' => src'.fileIds = src.fileIds)
    (.read fun p q hR => (hM.agrees p q hR).fileIds) fun src src' hsrc => ?_
  refine Pairs.bind (V := Eq) (.read fun p q hR => ?_) fun decls decls' hdecls => ?_
  · rw [hsrc, (hM.agrees p q hR).declarations]
  subst hdecls
  refine Pairs.bind (V := fun owners owners' => owners' = owners ∧
    ∀ d ∈ owners, d.symbol ∈ asked) (.read fun p q hR => ?_) fun owners owners' howners => ?_
  · have hpq := hM.agrees p q hR
    refine ⟨by simp only [hpq.has, hpq.decls], fun d hd => ?_⟩
    have hclass := (List.mem_filter.mp hd).2
    rw [Bool.and_eq_true] at hclass
    exact hM.classes p q hR d.symbol hclass.1
  obtain ⟨rfl, hasked⟩ := howners
  refine Pairs.bind (V := Eq) (.mapM fun d hd => ?_) fun pairs pairs' hpairs => ?_
  · refine (hM.declared d.symbol (hasked d hd)).bind fun t? t?' ht => ?_
    subst ht
    refine .read fun p q hR => ?_
    simp only [(hM.agrees p q hR).bases, (hM.agrees p q hR).typeSymbol]
  · subst hpairs
    exact .pure rfl

/-- The same pool, and fixed names that it cannot tell apart. -/
def SameNames (names names' : DomainNames) : Prop :=
  names'.pool = names.pool ∧ Alike names.pool.head names.fixed names'.fixed

/-- The allocators have given out the same names to the same symbols, with the same
symbols moving, and have the same names left. -/
structure Same (all : KeySet SymbolId) (a a' : Allocator) : Prop where
  moving : a.moving = all
  moving' : a'.moving = all
  reserved : a'.reserved = a.reserved
  allocated : a'.allocated = a.allocated
  done : a'.done = a.done
  heirs : a'.heirs = a.heirs
  domains : ∀ d : Domain, Option.Rel SameNames a.domains[d]? a'.domains[d]?

theorem Same.start (reserved : List String) :
    Same {} { reserved := reserved } { reserved := reserved } := by
  refine ⟨rfl, rfl, rfl, rfl, rfl, rfl, fun d => ?_⟩
  rw [Std.TreeMap.getElem?_emptyc]
  exact .none

/-- More symbols may move. -/
theorem Same.move {all : KeySet SymbolId} (h : Same all a a') (more : KeySet SymbolId) :
    Same more { a with moving := more } { a' with moving := more } :=
  ⟨rfl, rfl, h.reserved, h.allocated, h.done, h.heirs, h.domains⟩

section Steps

variable {moving : KeySet SymbolId} (hM : Mirrors S asked R) (h : Same moving a a')

include hM h

/-- The names of what extends an owner, after all others. -/
theorem below_pairs {fixed fixed' : List String} {owner : SymbolId}
    (hblind : ∀ p q, R p q → Blind "" moving p q) (hfixed : Alike "" fixed fixed')
    (heirs : List (SymbolId × SymbolId)) :
    Pairs R (fun x y => Alike "" x.1 y.1 ∧ Same moving x.2 y.2)
      (do
        let below ← Build.read fun p =>
          (heirs.filter fun h => h.1 == owner).flatMap fun h => a.memberNames p false h.2
        return (fixed ++ below, { a with heirs := some heirs }))
      (do
        let below ← Build.read fun p =>
          (heirs.filter fun h => h.1 == owner).flatMap fun h => a'.memberNames p false h.2
        return (fixed' ++ below, { a' with heirs := some heirs })) := by
  refine Pairs.bind (V := Alike "") (Pairs.read fun p q hR => ?_) fun below below' hbelow => ?_
  · refine .flatMap (fun heir => ?_) _
    exact memberNames_alike h.moving h.moving' (hblind p q hR) (hM.agrees p q hR) false heir.2
  · exact Pairs.pure ⟨hfixed.append hbelow,
      h.moving, h.moving', h.reserved, h.allocated, h.done, rfl, h.domains⟩

theorem domainFixed_pairs (hasked : ∀ owner, d = .members owner → owner ∈ asked)
    (hblind : ∀ p q, R p q → Blind (startPool d).head moving p q) :
    Pairs R (fun x y => Alike (startPool d).head x.1 y.1 ∧ Same moving x.2 y.2) (a.domainFixed d)
      (a'.domainFixed d) := by
  cases d with
  | lexical s? =>
    refine Pairs.bind (V := Alike "") (.read fun p q hR => ?_) fun _ _ hfixed => .pure ⟨hfixed, h⟩
    exact lexicalNames_alike h.moving h.moving' (hblind p q hR) (hM.agrees p q hR) s?
  | hardPrivate owner =>
    refine Pairs.bind (V := Alike "#") (.read fun p q hR => ?_) fun _ _ hfixed => .pure ⟨hfixed, h⟩
    exact memberNames_alike h.moving h.moving' (hblind p q hR) (hM.agrees p q hR) true owner
  | members owner =>
    refine Pairs.bind (V := Alike "") (.read fun p q hR => ?_) fun own own' hown => ?_
    · exact memberNames_alike h.moving h.moving' (hblind p q hR) (hM.agrees p q hR) false owner
    refine (hM.declared owner (hasked owner rfl)).bind fun t? t?' ht => ?_
    subst ht
    refine Pairs.bind (V := Alike "") (.read fun p q hR => ?_)
      fun inherited inherited' hinherited => ?_
    · simp only [(hM.agrees p q hR).bases]
      refine .flatMap (fun base => ?_) _
      exact baseNames_alike h.moving h.moving' (hblind p q hR) (hM.agrees p q hR) base
    dsimp only
    rw [h.heirs]
    cases a.heirs with
    | some heirs => exact below_pairs hM h hblind (hown.append hinherited) heirs
    | none =>
      refine (findHeirs_pairs hM).bind fun heirs heirs' heq => ?_
      subst heq
      exact below_pairs hM h hblind (hown.append hinherited) heirs

theorem namesOf_pairs (hasked : ∀ owner, d = .members owner → owner ∈ asked)
    (hblind : ∀ p q, R p q → Blind (startPool d).head moving p q) :
    Pairs R (fun x y => SameNames x.1 y.1 ∧ Same moving x.2 y.2) (a.namesOf d) (a'.namesOf d) := by
  unfold namesOf
  have hdomain := h.domains d
  cases hd : a.domains[d]? with
  | some names =>
    rw [hd] at hdomain
    cases hd' : a'.domains[d]? with
    | none => rw [hd'] at hdomain; cases hdomain
    | some names' =>
      rw [hd'] at hdomain
      cases hdomain with
      | some hnames => exact .pure ⟨hnames, h⟩
  | none =>
    rw [hd] at hdomain
    cases hd' : a'.domains[d]? with
    | some names' => rw [hd'] at hdomain; cases hdomain
    | none =>
      exact (domainFixed_pairs hM h hasked hblind).bind fun x y hxy => .pure ⟨⟨rfl, hxy.1⟩, hxy.2⟩

end Steps

/-- The renamings give the symbol one new name, and the second one takes the place of
the name that the symbol has in the program, if it is there. -/
structure Twin (q : Program) (r r' : Renaming) : Prop where
  symbol : r'.symbol = r.symbol
  target : r'.target = r.target
  named : r.target ≠ ""
  oldName : (q.symbol r.symbol).name ≠ "" → r'.oldName = (q.symbol r.symbol).name

/-- A name that a symbol has stays. -/
theorem name_of_later {s : SymbolId} (h : Later p q) (hname : (p.symbol s).name ≠ "") :
    (q.symbol s).name = (p.symbol s).name := by
  have hlt : s.idx < p.symbols.size := by
    by_contra hge
    rw [Program.symbol_of_size_le (Nat.le_of_not_lt hge)] at hname
    exact hname rfl
  exact (Program.Extends.symbol_kept h hlt).name

section Runs

variable {moving : KeySet SymbolId} {es : List Entry} (hM : Mirrors S asked R)
  (hlater : ∀ p' q', R p' q' → Later q q')

include hM hlater

theorem step_pairs (h : Same moving a a') (unresolved : FileId → List String)
    (hasked : ∀ owner, e.domain = .members owner → owner ∈ asked)
    (hblind : ∀ p q, R p q → Blind (startPool e.domain).head moving p q) :
    Pairs R (fun x y => List.Forall₂ (Twin q) x.1.toList y.1.toList ∧ Same moving x.2 y.2)
      (a.step unresolved e) (a'.step unresolved e) := by
  unfold step
  rw [h.done]
  split
  · exact .pure ⟨.nil, h⟩
  · refine (namesOf_pairs hM h hasked hblind).bind ?_
    rintro ⟨names, a⟩ ⟨names', a'⟩ ⟨⟨hpool, hfixed⟩, h⟩
    dsimp only at hpool hfixed h ⊢
    refine Pairs.bind (V := fun src src' => src'.fileOf = src.fileOf)
      (.read fun p q hR => (hM.agrees p q hR).fileOf) fun src src' hsrc => ?_
    have htaken : Alike names.pool.head (a.taken names (unresolved (src.fileOf e.decl)) e.domain)
        (a'.taken names' (unresolved (src'.fileOf e.decl)) e.domain) := by
      unfold taken
      rw [hsrc, h.reserved, h.allocated]
      exact (Alike.refl _ _).append hfixed
    have hdraw : names'.pool.drawAvoiding
          (a'.taken names' (unresolved (src'.fileOf e.decl)) e.domain) =
        names.pool.drawAvoiding (a.taken names (unresolved (src.fileOf e.decl)) e.domain) := by
      rw [hpool]
      exact htaken.drawAvoiding_eq
    simp only [hdraw]
    refine Pairs.bind (V := fun _ old' => (q.symbol e.symbol).name ≠ "" →
      old' = (q.symbol e.symbol).name) (.read fun p' q' hR => ?_) fun _ old' hold => .pure ?_
    · exact name_of_later (hlater p' q' hR)
    refine ⟨.cons ⟨rfl, rfl, NamePool.drawAvoiding_ne_empty _ _, hold⟩ .nil, h.moving, h.moving',
      h.reserved, by rw [h.allocated], by rw [h.done], h.heirs, fun d => ?_⟩
    rw [Table.getElem?_insert, Table.getElem?_insert]
    split
    · refine .some ⟨rfl, ?_⟩
      dsimp only
      rw [NamePool.head_drawAvoiding]
      exact hfixed
    · exact h.domains d

/-- **Both programs give the candidates the same names.** -/
theorem allocate_pairs (h : Same moving a a')
    (hasked : ∀ e ∈ es, ∀ owner, e.domain = .members owner → owner ∈ asked)
    (hblind : ∀ e ∈ es, ∀ p q, R p q →
      Blind (startPool e.domain).head (es.foldl (fun m e => m.insert e.symbol) moving) p q) :
    Pairs R (fun x y => List.Forall₂ (Twin q) x.1 y.1 ∧
        Same (es.foldl (fun m e => m.insert e.symbol) moving) x.2 y.2)
      (a.allocate es) (a'.allocate es) := by
  unfold allocate
  refine Pairs.bind (V := Eq) (.read fun p q hR => ?_) fun table table' htable => ?_
  · rw [(hM.agrees p q hR).fileIds, (hM.agrees p q hR).unresolved]
  subst htable
  dsimp only
  rw [h.moving, h.moving']
  refine Pairs.foldlM ⟨.nil, h.move _⟩ fun e he b b' hb => ?_
  obtain ⟨hout, hsame⟩ := hb
  refine (step_pairs hM hlater hsame _ (hasked e he) (hblind e he)).bind fun x y hxy => .pure ?_
  exact ⟨List.rel_append hout hxy.1, hxy.2⟩

end Runs

/-- Names for the general candidates, and after them for the hard-private ones. -/
def passes (reserved : List String) (general hard : List Entry) : Build (List Renaming) := do
  let first ← allocate { reserved := reserved } general
  let second ← first.2.allocate hard
  return first.1 ++ second.1

/-- The renamings of a plan are those of the two passes. -/
theorem renamings_planMangle (files : List FileId) (opts : MangleOptions) (p : Program) :
    ((planMangle files opts).value p).renamings =
      (passes opts.reserved ((analyze files opts.toSurfaceOptions).value p).general
        (if opts.hardPrivate then ((analyze files opts.toSurfaceOptions).value p).hardPrivates
          else [])).value ((analyze files opts.toSurfaceOptions).after p) := by
  unfold planMangle ManglePlan.ofAnalysis passes
  cases opts.hardPrivate with
  | true => rfl
  | false => exact (List.append_nil _).symm

/-- The two runs give the symbols of the entries one new name each. -/
theorem passes_pairs {reserved : List String} {general hard : List Entry}
    (hM : Mirrors {s | ∃ e ∈ general ++ hard, e.symbol = s} asked R) (hR : R p q)
    (hasked : ∀ e ∈ general ++ hard, ∀ owner, e.domain = .members owner → owner ∈ asked)
    (hgeneral : ∀ e ∈ general, isHardPrivate e.domain = true → hard = [])
    (hhard : ∀ e ∈ hard, Hashed (p.symbol e.symbol).name ∧ Hashed (q.symbol e.symbol).name) :
    List.Forall₂ (Twin q) ((passes reserved general hard).value p)
      ((passes reserved general hard).value q) := by
  -- Names of symbols that are there do not change on the way.
  let R' (p' q' : Program) : Prop := R p' q' ∧ Later p p' ∧ Later q q'
  have hM' : Mirrors {s | ∃ e ∈ general ++ hard, e.symbol = s} asked R' := by
    refine ⟨fun p' q' h => hM.agrees p' q' h.1, fun p' q' h => hM.classes p' q' h.1, ?_⟩
    intro s hs p' q' h
    obtain ⟨hvalue, hafter⟩ := hM.declared s hs p' q' h.1
    exact ⟨hvalue, hafter, h.2.1.trans ((Build.Inquires.declaredTypeOf s).later p'),
      h.2.2.trans ((Build.Inquires.declaredTypeOf s).later q')⟩
  have hlater (p' q' : Program) (h : R' p' q') : Later q q' := h.2.2
  have hblind : ∀ e ∈ general, ∀ p' q', R' p' q' → Blind (startPool e.domain).head
      (general.foldl (fun m e => m.insert e.symbol) {}) p' q' := by
    intro e he p' q' h s hs
    by_cases hcandidate : ∃ e ∈ general ++ hard, e.symbol = s
    · obtain ⟨e', he', rfl⟩ := hcandidate
      rw [mem_foldl_insert] at hs
      have he' : e' ∈ hard := (List.mem_append.mp he').resolve_left fun he' =>
        hs (.inr ⟨e', he', rfl⟩)
      have hhead : (startPool e.domain).head = "" := by
        cases hd : e.domain with
        | hardPrivate owner =>
          have hnil := hgeneral e he (by rw [hd]; rfl)
          exact absurd he' (hnil ▸ List.not_mem_nil)
        | lexical s? => rfl
        | members owner => rfl
      obtain ⟨hp, hq⟩ := hhard e' he'
      rw [hhead, name_of_later h.2.1 hp.ne_empty, name_of_later h.2.2 hq.ne_empty]
      exact .inr fun i => ⟨hp.ne_current i, hq.ne_current i⟩
    · exact .inl ((hM.agrees p' q' h.1).name s hcandidate)
  have hboth : Pairs R' (List.Forall₂ (Twin q)) (passes reserved general hard)
      (passes reserved general hard) := by
    refine (allocate_pairs hM' hlater (.start reserved)
      (fun e he => hasked e (List.mem_append_left _ he)) hblind).bind fun x y hxy => ?_
    refine (allocate_pairs hM' hlater hxy.2 (fun e he => hasked e (List.mem_append_right _ he))
      ?_).bind fun x' y' hxy' => .pure (List.rel_append hxy.1 hxy'.1)
    intro e he p' q' h s hs
    rw [mem_foldl_insert, mem_foldl_insert] at hs
    refine .inl ((hM.agrees p' q' h.1).name s ?_)
    rintro ⟨e', he', rfl⟩
    rcases List.mem_append.mp he' with he' | he'
    · exact hs (.inl (.inr ⟨e', he', rfl⟩))
    · exact hs (.inr ⟨e', he', rfl⟩)
  exact (hboth p q ⟨hR, .refl p, .refl q⟩).1

/-- Twins name the same symbols in the same way. -/
theorem targets_eq_of_twins {l l' : List Renaming} (h : List.Forall₂ (Twin q) l l') :
    l'.map (fun r => (r.symbol, r.target)) = l.map fun r => (r.symbol, r.target) := by
  induction h with
  | nil => rfl
  | cons h _ ih => rw [List.map_cons, List.map_cons, h.symbol, h.target, ih]

/-- If the symbols have the new names already, the second ones change nothing. -/
theorem isUnchanged_of_twins {l l' : List Renaming} (h : List.Forall₂ (Twin q) l l')
    (hnamed : ∀ r ∈ l, (q.symbol r.symbol).name = r.target) : ∀ r ∈ l', r.isUnchanged = true := by
  induction h with
  | nil => exact fun _ h => nomatch h
  | @cons r r' rest rest' h _ ih =>
    have hname := hnamed r List.mem_cons_self
    refine List.forall_mem_cons.mpr ⟨?_, ih fun r hr => hnamed r (List.mem_cons_of_mem _ hr)⟩
    have hold := h.oldName (by rw [hname]; exact h.named)
    rw [Renaming.isUnchanged, hold, hname, h.target]
    exact beq_self_eq_true _

/-- **A second pass changes nothing.** Giving names to general candidates and then to
hard-private ones gives them the same names in both programs. So if the candidates of
the second have the names that the first pass gave them, they keep them. -/
theorem blind_passes {reserved : List String} {general hard : List Entry}
    (hM : Mirrors {s | ∃ e ∈ general ++ hard, e.symbol = s} asked R) (hR : R p q)
    (hasked : ∀ e ∈ general ++ hard, ∀ owner, e.domain = .members owner → owner ∈ asked)
    (hgeneral : ∀ e ∈ general, isHardPrivate e.domain = true → hard = [])
    (hhard : ∀ e ∈ hard, Hashed (p.symbol e.symbol).name ∧ Hashed (q.symbol e.symbol).name) :
    ((passes reserved general hard).value q).map (fun r => (r.symbol, r.target)) =
        ((passes reserved general hard).value p).map (fun r => (r.symbol, r.target)) ∧
      ((∀ r ∈ (passes reserved general hard).value p, (q.symbol r.symbol).name = r.target) →
        ∀ r ∈ (passes reserved general hard).value q, r.isUnchanged = true) := by
  have htwins : List.Forall₂ (Twin q) ((passes reserved general hard).value p)
      ((passes reserved general hard).value q) := passes_pairs hM hR hasked hgeneral hhard
  exact ⟨targets_eq_of_twins htwins, isUnchanged_of_twins htwins⟩

/-- A class with a hard-private member, and a class that extends it and has a member. -/
def boxes : Program where
  symbols := #[
    { name := "Base", traits := .of [.classDecl], decls := [⟨0⟩], scope := some ⟨0⟩,
      members := some ⟨0⟩ },
    { name := "#size", traits := .of [.property, .hardPrivate], decls := [⟨1⟩], owner := some ⟨0⟩ },
    { name := "Box", traits := .of [.classDecl], decls := [⟨2⟩], scope := some ⟨0⟩,
      members := some ⟨1⟩ },
    { name := "width", traits := .of [.property], decls := [⟨3⟩], owner := some ⟨2⟩ }]
  scopes := #[{ symbols := [⟨0⟩, ⟨2⟩] }]
  tables := #[⟨[("#size", ⟨1⟩)]⟩, ⟨[("width", ⟨3⟩)]⟩]
  types := #[{ kind := .object, symbol := some ⟨0⟩, members := some ⟨0⟩ },
    { kind := .object, symbol := some ⟨2⟩, bases := [⟨0⟩], members := some ⟨1⟩ }]
  declaredTypes := ((∅ : Table SymbolId TypeId).insert ⟨0⟩ ⟨0⟩).insert ⟨2⟩ ⟨1⟩

/-- The names of the boxes before the first pass, or after it. -/
def boxNames (mangled : Bool) (s : SymbolId) : String :=
  (if mangled then #["a", "#a", "b", "c"] else #["Base", "#size", "Box", "width"]).getD s.idx ""

/-- The candidates among the boxes, hard-private ones apart. -/
def generalBoxes : List Entry :=
  [{ symbol := ⟨0⟩, decl := ⟨0⟩, exported := false, depth := 0, domain := .lexical (some ⟨0⟩),
     reason := .internal },
   { symbol := ⟨2⟩, decl := ⟨2⟩, exported := false, depth := 0, domain := .lexical (some ⟨0⟩),
     reason := .internal },
   { symbol := ⟨3⟩, decl := ⟨3⟩, exported := false, depth := 1, domain := .members ⟨2⟩,
     reason := .internal }]

/-- The hard-private candidates among the boxes. -/
def hardBoxes : List Entry :=
  [{ symbol := ⟨1⟩, decl := ⟨1⟩, exported := false, depth := 1, domain := .hardPrivate ⟨0⟩,
     reason := .hardPrivate }]

theorem exists_mem_boxes {s : SymbolId} (h : s.idx < 4) :
    ∃ e ∈ generalBoxes ++ hardBoxes, e.symbol = s := by
  obtain ⟨i⟩ := s
  match i, h with
  | 0, _ | 1, _ | 2, _ | 3, _ => simp [generalBoxes, hardBoxes]

theorem blind_passes_boxes :
    ((passes [] generalBoxes hardBoxes).value (boxes.withNames (boxNames true))).map
          (fun r => (r.symbol, r.target)) =
        ((passes [] generalBoxes hardBoxes).value (boxes.withNames (boxNames false))).map
          (fun r => (r.symbol, r.target)) ∧
      ((∀ r ∈ (passes [] generalBoxes hardBoxes).value (boxes.withNames (boxNames false)),
          ((boxes.withNames (boxNames true)).symbol r.symbol).name = r.target) →
        ∀ r ∈ (passes [] generalBoxes hardBoxes).value (boxes.withNames (boxNames true)),
          r.isUnchanged = true) := by
  have hM : Mirrors {s | ∃ e ∈ generalBoxes ++ hardBoxes, e.symbol = s} {s | s = ⟨0⟩ ∨ s = ⟨2⟩}
      fun p q => p = boxes.withNames (boxNames false) ∧ q = boxes.withNames (boxNames true) := by
    refine Program.mirrors_withNames (fun s hs => ?_) (fun s hs => ?_) fun s hs => ?_
    · have hlt : ¬ s.idx < 4 := fun hlt => hs (exists_mem_boxes hlt)
      have hnone (names : Array String) (h : names.size = 4) : names.getD s.idx "" = "" :=
        getD_of_size_le (by omega)
      exact (hnone _ rfl).trans (hnone _ rfl).symm
    · obtain ⟨i⟩ := s
      match i with
      | 0 => exact .inl rfl
      | 2 => exact .inr rfl
      | 1 | 3 => exact absurd hs (by decide)
      | i + 4 => exact absurd hs (by rw [Program.symbol_of_size_le (by simp [boxes])]; decide)
    · rcases hs with rfl | rfl
      · exact ⟨⟨0⟩, by simp only [boxes, Table.getElem?_insert]; rfl⟩
      · exact ⟨⟨1⟩, by simp only [boxes, Table.getElem?_insert]; rfl⟩
  refine blind_passes hM ⟨rfl, rfl⟩ (fun e he owner hd => ?_) (fun e he hd => ?_) fun e he => ?_
  · simp only [generalBoxes, hardBoxes, List.cons_append, List.nil_append, List.mem_cons,
      List.not_mem_nil, or_false] at he
    rcases he with rfl | rfl | rfl | rfl
    case inr.inr.inl =>
      cases hd
      exact .inr rfl
    all_goals cases hd
  · simp only [generalBoxes, List.mem_cons, List.not_mem_nil, or_false] at he
    rcases he with rfl | rfl | rfl <;> cases hd
  · rw [List.mem_singleton.mp he]
    exact ⟨⟨_, rfl⟩, ⟨_, rfl⟩⟩

end Allocator
end Moniker
