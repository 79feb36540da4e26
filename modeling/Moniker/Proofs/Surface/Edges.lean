/-
# What leads to what on the public surface

A checker without a state gives the same answers always, so it is a graph of
symbols, nodes and types.  `Edge` lists how one item leads to another:

| from | to |
| --- | --- |
| an alias | the value type and the declared type of what it stands for |
| another symbol | its declarations, its value type, the type it declares |
| a node | the symbol it declares or else denotes, its type |
| a type | its symbols, arguments, parts, members, signatures, constraint, bases |

Intrinsic types are not entered (`Leads`).  The surface starts from the exports of
the root files, the global variables and the foreign global types that the files see,
the exports of external modules and the values that leave the program (`Root`).  An
item is public if a root leads to it (`Public`).

The exploration asks for these edges and starts from these roots (`mem_next`,
`exists_mem_phases`).
-/

import Moniker.Surface.Reach
import Mathlib.Logic.Relation

namespace Moniker
namespace Checker

variable {a : Checker Unit} {hidden : Bool} {i j : Item} {files : List FileId}
  {opts : SurfaceOptions}

/-- The symbol is an alias of the other one. -/
def StandsFor (a : Checker Unit) (s target : SymbolId) : Prop :=
  (a.symbol () s).isAlias = true ∧ (a.resolveAlias s ()).1 = some target ∧ target ≠ s

/-- One item of the program leads to another; members marked `private` are left out if
they are hidden. -/
inductive Edge (a : Checker Unit) (hidden : Bool) : Item → Item → Prop
  | aliasValue {s target t} : a.StandsFor s target → (a.typeOfSymbol target ()).1 = some t →
      Edge a hidden (.symbol s) (.type t)
  | aliasDeclared {s target t} : a.StandsFor s target → (a.declaredTypeOf target ()).1 = some t →
      Edge a hidden (.symbol s) (.type t)
  | declaration {s d} : (a.symbol () s).isAlias = false → d ∈ (a.symbol () s).decls →
      Edge a hidden (.symbol s) (.node d)
  | value {s t} : (a.symbol () s).isAlias = false → (a.typeOfSymbol s ()).1 = some t →
      Edge a hidden (.symbol s) (.type t)
  | declared {s t} : (a.symbol () s).isAlias = false →
      (a.symbol () s).isAny (Traits.type.insert .shape) = true →
      (a.declaredTypeOf s ()).1 = some t → Edge a hidden (.symbol s) (.type t)
  | declares {n s} : a.declared? () n = some s → Edge a hidden (.node n) (.symbol s)
  | denotes {n s} : a.declared? () n = none → a.referenced? () n = some s →
      Edge a hidden (.node n) (.symbol s)
  | ofNode {n t} : (a.typeOfNode n ()).1 = some t → Edge a hidden (.node n) (.type t)
  | ofType {t s} : (a.typeInfo () t).symbol = some s → Edge a hidden (.type t) (.symbol s)
  | named {t s} : (a.typeInfo () t).alias? = some s → Edge a hidden (.type t) (.symbol s)
  | aliasArg {t u} : some u ∈ (a.typeInfo () t).aliasArgs → Edge a hidden (.type t) (.type u)
  | typeArg {t u} : u ∈ (a.typeInfo () t).typeArgs → Edge a hidden (.type t) (.type u)
  | part {t u} : u ∈ (a.typeInfo () t).parts → Edge a hidden (.type t) (.type u)
  | member {t m} : m ∈ a.typeMembers () t →
      ¬ (hidden = true ∧ (a.symbol () m).has .softPrivate = true) →
      Edge a hidden (.type t) (.symbol m)
  | typeParameter {t sig s} : sig ∈ (a.typeInfo () t).signatures → s ∈ sig.typeParameters →
      Edge a hidden (.type t) (.symbol s)
  | parameter {t sig s} : sig ∈ (a.typeInfo () t).signatures → s ∈ sig.parameters →
      Edge a hidden (.type t) (.symbol s)
  | result {t} {sig : Signature} : sig ∈ (a.typeInfo () t).signatures →
      Edge a hidden (.type t) (.type sig.result)
  | constraint {t u} : (a.typeInfo () t).constraint = some u → Edge a hidden (.type t) (.type u)
  | base {t u} : u ∈ (a.typeInfo () t).bases → Edge a hidden (.type t) (.type u)
  | instance_ {t u} : (a.typeInfo () t).instance? = some u → Edge a hidden (.type t) (.type u)

/-- May the item be visited? Intrinsic types may not. -/
def Enters (a : Checker Unit) : Item → Prop
  | .type t => a.isIntrinsic () t = false
  | _ => True

/-- One item leads to another that may be visited. -/
def Leads (a : Checker Unit) (hidden : Bool) (i j : Item) : Prop := a.Edge hidden i j ∧ a.Enters j

/-- The surface starts from the item when these files are processed. -/
inductive Root (a : Checker Unit) (files : List FileId) (opts : SurfaceOptions) : Item → Prop
  | exported {f s} : f ∈ (if opts.roots.isEmpty then files else opts.roots) →
      s ∈ a.exports () f → Root a files opts (.symbol s)
  | globalVariable {f scope s} : f ∈ files → a.moduleScope? () f = some scope →
      s ∈ a.visibleSymbols () scope (Traits.of [.variableDecl]) → a.isGlobal () s = true →
      (a.symbol () s).has .blockScoped = false → Root a files opts (.symbol s)
  | foreignType {f scope s} : f ∈ files → a.moduleScope? () f = some scope →
      s ∈ a.visibleSymbols () scope Traits.type → a.isGlobal () s = true →
      (a.symbol () s).isAny Traits.value = false →
      (∀ d ∈ (a.symbol () s).decls, a.fileOf () d ≠ f) → Root a files opts (.symbol s)
  | external {name s} : name ∈ opts.externalModules → s ∈ a.ambientExports () name →
      Root a files opts (.symbol s)
  | effect {f n} : opts.effectRoots = true → f ∈ a.files () → n ∈ a.effectRoots () f →
      Root a files opts (.node n)

/-- A root leads to the item. -/
def Public (a : Checker Unit) (files : List FileId) (opts : SurfaceOptions) (i : Item) : Prop :=
  ∃ root, a.Root files opts root ∧
    Relation.ReflTransGen (a.Leads opts.privateMembersInternal) root i

theorem Root.public (h : a.Root files opts i) : a.Public files opts i := ⟨i, h, .refl⟩

theorem Public.leads (h : a.Public files opts i) (hij : a.Leads opts.privateMembersInternal i j) :
    a.Public files opts j := by
  obtain ⟨root, hroot, hpath⟩ := h
  exact ⟨root, hroot, hpath.tail hij⟩

/-- **Intrinsic types are not public.** -/
theorem Public.enters (h : a.Public files opts i) : a.Enters i := by
  obtain ⟨root, hroot, hpath⟩ := h
  rcases Relation.ReflTransGen.cases_tail hpath with rfl | ⟨j, _, hleads⟩
  · cases hroot <;> trivial
  · exact hleads.2

/-! ### The exploration asks for the edges -/

theorem mem_typeItems {ts : List TypeId} :
    j ∈ a.typeItems () ts ↔ ∃ t ∈ ts, a.isIntrinsic () t = false ∧ j = .type t := by
  unfold typeItems
  constructor
  · intro h
    obtain ⟨t, ht, rfl⟩ := List.mem_map.mp h
    obtain ⟨hmem, henters⟩ := List.mem_filter.mp ht
    exact ⟨t, hmem, by simpa using henters, rfl⟩
  · rintro ⟨t, ht, henters, rfl⟩
    exact List.mem_map.mpr ⟨t, List.mem_filter.mpr ⟨ht, by simpa using henters⟩, rfl⟩

/-- The types of a value and of a declaration that may be visited. -/
theorem mem_typeItems_pair {value? declared? : Option TypeId} :
    j ∈ a.typeItems () (value?.toList ++ declared?.toList) ↔
      ∃ t, (value? = some t ∨ declared? = some t) ∧ a.isIntrinsic () t = false ∧ j = .type t := by
  simp only [mem_typeItems, List.mem_append, Option.mem_toList]

/-- Without a state, one question after another is one answer after another. -/
theorem value_bind (m : StateM Unit β) (f : β → StateM Unit γ) :
    ((m >>= f) ()).1 = (f (m ()).1 ()).1 := rfl

theorem fromSymbol_eq (s : SymbolId) :
    (a.fromSymbol s ()).1 =
      if (a.symbol () s).isAlias then
        match (a.resolveAlias s ()).1 with
        | none => []
        | some target =>
          if target == s then []
          else a.typeItems () ((a.typeOfSymbol target ()).1.toList ++
            (a.declaredTypeOf target ()).1.toList)
      else
        (a.symbol () s).decls.map .node ++ a.typeItems () ((a.typeOfSymbol s ()).1.toList ++
          (if (a.symbol () s).isAny (Traits.type.insert .shape) then (a.declaredTypeOf s ()).1
            else none).toList) := by
  unfold fromSymbol
  rw [value_bind]
  dsimp only
  split
  · rw [value_bind]
    cases (a.resolveAlias s ()).1 with
    | none => rfl
    | some target =>
      dsimp only
      split
      · rfl
      · rfl
  · rw [value_bind]
    split
    · rfl
    · rfl

theorem mem_fromSymbol {s : SymbolId} :
    j ∈ (a.fromSymbol s ()).1 ↔ a.Leads hidden (.symbol s) j := by
  rw [fromSymbol_eq]
  cases halias : (a.symbol () s).isAlias with
  | true =>
    rw [if_pos rfl]
    constructor
    · intro h
      cases htarget : (a.resolveAlias s ()).1 with
      | none => rw [htarget] at h; exact nomatch h
      | some target =>
        rw [htarget] at h
        dsimp only at h
        split at h
        · exact nomatch h
        · next hne =>
          have hstands : a.StandsFor s target := ⟨halias, htarget, by simpa using hne⟩
          obtain ⟨t, ht | ht, henters, rfl⟩ := mem_typeItems_pair.mp h
          · exact ⟨.aliasValue hstands ht, henters⟩
          · exact ⟨.aliasDeclared hstands ht, henters⟩
    · rintro ⟨hedge, henters⟩
      cases hedge with
      | aliasValue hstands ht =>
        obtain ⟨_, htarget, hne⟩ := hstands
        rw [htarget]
        dsimp only
        rw [if_neg (by simpa using hne)]
        exact mem_typeItems_pair.mpr ⟨_, .inl ht, henters, rfl⟩
      | aliasDeclared hstands ht =>
        obtain ⟨_, htarget, hne⟩ := hstands
        rw [htarget]
        dsimp only
        rw [if_neg (by simpa using hne)]
        exact mem_typeItems_pair.mpr ⟨_, .inr ht, henters, rfl⟩
      | declaration h | value h | declared h => exact absurd (halias.symm.trans h) (by decide)
  | false =>
    rw [if_neg Bool.false_ne_true, List.mem_append, mem_typeItems_pair]
    constructor
    · rintro (h | ⟨t, ht | ht, henters, rfl⟩)
      · obtain ⟨d, hd, rfl⟩ := List.mem_map.mp h
        exact ⟨.declaration halias hd, trivial⟩
      · exact ⟨.value halias ht, henters⟩
      · split at ht
        · next hdeclares => exact ⟨.declared halias hdeclares ht, henters⟩
        · exact nomatch ht
    · rintro ⟨hedge, henters⟩
      cases hedge with
      | aliasValue hstands | aliasDeclared hstands =>
        exact absurd (halias.symm.trans hstands.1) (by decide)
      | declaration _ hd => exact .inl (List.mem_map.mpr ⟨_, hd, rfl⟩)
      | value _ ht => exact .inr ⟨_, .inl ht, henters, rfl⟩
      | declared _ hdeclares ht =>
        rw [if_pos hdeclares]
        exact .inr ⟨_, .inr ht, henters, rfl⟩

theorem mem_fromNode {n : NodeId} :
    j ∈ (a.fromNode n ()).1 ↔ a.Leads hidden (.node n) j := by
  have hrun : (a.fromNode n ()).1 =
      ((a.declared? () n <|> a.referenced? () n).map Item.symbol).toList ++
        a.typeItems () (a.typeOfNode n ()).1.toList := rfl
  rw [hrun, List.mem_append, Option.mem_toList, mem_typeItems]
  constructor
  · rintro (h | ⟨t, ht, henters, rfl⟩)
    · obtain ⟨s, hs, rfl⟩ := Option.map_eq_some_iff.mp h
      cases hdeclared : a.declared? () n with
      | some s' =>
        rw [hdeclared] at hs
        obtain rfl := Option.some.inj hs
        exact ⟨.declares hdeclared, trivial⟩
      | none =>
        rw [hdeclared] at hs
        exact ⟨.denotes hdeclared hs, trivial⟩
    · exact ⟨.ofNode (Option.mem_toList.mp ht), henters⟩
  · rintro ⟨hedge, henters⟩
    cases hedge with
    | declares hs =>
      rw [hs]
      exact .inl rfl
    | denotes hnone hs =>
      rw [hnone, hs]
      exact .inl rfl
    | ofNode ht => exact .inr ⟨_, Option.mem_toList.mpr ht, henters, rfl⟩

/-- Types that a type leads to, if they may be visited. -/
theorem leads_of_mem_typeItems {t : TypeId} {ts : List TypeId}
    (hedge : ∀ u ∈ ts, a.Edge hidden (.type t) (.type u)) (h : j ∈ a.typeItems () ts) :
    a.Leads hidden (.type t) j := by
  obtain ⟨u, hu, henters, rfl⟩ := mem_typeItems.mp h
  exact ⟨hedge u hu, henters⟩

theorem mem_fromType {t : TypeId} :
    j ∈ a.fromType () hidden t ↔ a.Leads hidden (.type t) j := by
  unfold fromType
  simp only [List.mem_append, List.mem_map, List.mem_flatMap, List.mem_filter, Option.mem_toList]
  have hshows (m : SymbolId) : (!(hidden && (a.symbol () m).has .softPrivate)) = true ↔
      ¬ (hidden = true ∧ (a.symbol () m).has .softPrivate = true) := by
    rw [Bool.not_eq_true', ← Bool.not_eq_true, Bool.and_eq_true]
  constructor
  · rintro (((((⟨s, hs | hs, rfl⟩ | h) | ⟨m, ⟨hm, hshown⟩, rfl⟩) | ⟨sig, hsig, h⟩) | h))
    · exact ⟨.ofType hs, trivial⟩
    · exact ⟨.named hs, trivial⟩
    · refine leads_of_mem_typeItems (fun u hu => ?_) h
      rcases List.mem_append.mp hu with hu | hu
      · rcases List.mem_append.mp hu with hu | hu
        · obtain ⟨u?, hmem, rfl⟩ := List.mem_filterMap.mp hu
          exact .aliasArg hmem
        · exact .typeArg hu
      · exact .part hu
    · exact ⟨.member hm ((hshows m).mp hshown), trivial⟩
    · rcases h with ⟨s, hs | hs, rfl⟩ | h
      · exact ⟨.typeParameter hsig hs, trivial⟩
      · exact ⟨.parameter hsig hs, trivial⟩
      · refine leads_of_mem_typeItems (fun u hu => ?_) h
        rw [List.mem_singleton.mp hu]
        exact .result hsig
    · refine leads_of_mem_typeItems (fun u hu => ?_) h
      rcases List.mem_append.mp hu with hu | hu
      · rcases List.mem_append.mp hu with hu | hu
        · exact .constraint (Option.mem_toList.mp hu)
        · exact .base hu
      · exact .instance_ (Option.mem_toList.mp hu)
  · rintro ⟨hedge, henters⟩
    have hparts {ts : List TypeId} {u : TypeId} (hu : u ∈ ts)
        (henters : a.isIntrinsic () u = false) : Item.type u ∈ a.typeItems () ts :=
      mem_typeItems.mpr ⟨u, hu, henters, rfl⟩
    cases hedge with
    | ofType hs => exact .inl (.inl (.inl (.inl ⟨_, .inl hs, rfl⟩)))
    | named hs => exact .inl (.inl (.inl (.inl ⟨_, .inr hs, rfl⟩)))
    | aliasArg hu =>
      refine .inl (.inl (.inl (.inr (hparts ?_ henters))))
      exact List.mem_append_left _ (List.mem_append_left _ (List.mem_filterMap.mpr ⟨_, hu, rfl⟩))
    | typeArg hu =>
      refine .inl (.inl (.inl (.inr (hparts ?_ henters))))
      exact List.mem_append_left _ (List.mem_append_right _ hu)
    | part hu => exact .inl (.inl (.inl (.inr (hparts (List.mem_append_right _ hu) henters))))
    | member hm hshown => exact .inl (.inl (.inr ⟨_, ⟨hm, (hshows _).mpr hshown⟩, rfl⟩))
    | typeParameter hsig hs => exact .inl (.inr ⟨_, hsig, .inl ⟨_, .inl hs, rfl⟩⟩)
    | parameter hsig hs => exact .inl (.inr ⟨_, hsig, .inl ⟨_, .inr hs, rfl⟩⟩)
    | result hsig =>
      exact .inl (.inr ⟨_, hsig, .inr (hparts (List.mem_singleton.mpr rfl) henters)⟩)
    | constraint hu =>
      refine .inr (hparts ?_ henters)
      exact List.mem_append_left _ (List.mem_append_left _ (Option.mem_toList.mpr hu))
    | base hu =>
      refine .inr (hparts ?_ henters)
      exact List.mem_append_left _ (List.mem_append_right _ hu)
    | instance_ hu =>
      exact .inr (hparts (List.mem_append_right _ (Option.mem_toList.mpr hu)) henters)

/-- **The exploration asks for the edges.** -/
theorem mem_next : j ∈ (a.next hidden i ()).1 ↔ a.Leads hidden i j := by
  cases i with
  | symbol s => exact mem_fromSymbol
  | type t => exact mem_fromType
  | node n => exact mem_fromNode

/-- **The exploration starts from the roots.** -/
theorem exists_mem_phases :
    (∃ phase ∈ a.phases files opts, i ∈ phase ()) ↔ a.Root files opts i := by
  unfold phases
  simp only [List.mem_append, List.mem_singleton, List.mem_map]
  constructor
  · rintro ⟨phase, ((rfl | ⟨f, hf, rfl⟩) | rfl) | h, hi⟩
    · obtain ⟨s, hs, rfl⟩ := List.mem_map.mp hi
      obtain ⟨f, hf, hs⟩ := List.mem_flatMap.mp hs
      exact .exported hf hs
    · obtain ⟨s, hs, rfl⟩ := List.mem_map.mp hi
      unfold globals at hs
      cases hscope : a.moduleScope? () f with
      | none => rw [hscope] at hs; exact nomatch hs
      | some scope =>
        rw [hscope] at hs
        rcases List.mem_append.mp hs with hs | hs
        · obtain ⟨hvisible, hglobal⟩ := List.mem_filter.mp hs
          rw [Bool.and_eq_true, Bool.not_eq_true'] at hglobal
          exact .globalVariable hf hscope hvisible hglobal.1 hglobal.2
        · obtain ⟨hvisible, hforeign⟩ := List.mem_filter.mp hs
          simp only [Bool.and_eq_true, Bool.not_eq_true', List.any_eq_false, beq_iff_eq]
            at hforeign
          exact .foreignType hf hscope hvisible hforeign.1.1 hforeign.1.2 hforeign.2
    · obtain ⟨s, hs, rfl⟩ := List.mem_map.mp hi
      obtain ⟨name, hname, hs⟩ := List.mem_flatMap.mp hs
      exact .external hname hs
    · split at h
      · next heffects =>
        rw [List.mem_singleton.mp h] at hi
        obtain ⟨n, hn, rfl⟩ := List.mem_map.mp hi
        obtain ⟨f, hf, hn⟩ := List.mem_flatMap.mp hn
        exact .effect heffects hf hn
      · exact nomatch h
  · intro hroot
    cases hroot with
    | exported hf hs =>
      refine ⟨_, .inl (.inl (.inl rfl)), List.mem_map.mpr ⟨_, ?_, rfl⟩⟩
      exact List.mem_flatMap.mpr ⟨_, hf, hs⟩
    | globalVariable hf hscope hvisible hglobal hscoped =>
      refine ⟨_, .inl (.inl (.inr ⟨_, hf, rfl⟩)), List.mem_map.mpr ⟨_, ?_, rfl⟩⟩
      rw [globals, hscope]
      refine List.mem_append_left _ (List.mem_filter.mpr ⟨hvisible, ?_⟩)
      rw [hglobal, hscoped]
      rfl
    | foreignType hf hscope hvisible hglobal hvalue hforeign =>
      refine ⟨_, .inl (.inl (.inr ⟨_, hf, rfl⟩)), List.mem_map.mpr ⟨_, ?_, rfl⟩⟩
      rw [globals, hscope]
      refine List.mem_append_right _ (List.mem_filter.mpr ⟨hvisible, ?_⟩)
      simp only [Bool.and_eq_true, Bool.not_eq_true', List.any_eq_false, beq_iff_eq]
      exact ⟨⟨hglobal, hvalue⟩, hforeign⟩
    | external hname hs =>
      refine ⟨_, .inl (.inr rfl), List.mem_map.mpr ⟨_, ?_, rfl⟩⟩
      exact List.mem_flatMap.mpr ⟨_, hname, hs⟩
    | effect heffects hf hn =>
      refine ⟨_, .inr (by rw [if_pos heffects]; exact List.mem_singleton.mpr rfl),
        List.mem_map.mpr ⟨_, ?_, rfl⟩⟩
      exact List.mem_flatMap.mpr ⟨_, hf, hn⟩

end Checker
end Moniker
