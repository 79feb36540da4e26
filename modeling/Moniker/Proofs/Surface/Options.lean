/-
# More options make more public

Options ask for more than others if they have at least their roots, external modules and
reserved names, count the values that leave the program if those do, and hide members marked
`private` only if those do (`SurfaceOptions.Le`).

Then all that is public for the others is public for them (`Checker.Public.mono`), and a
declaration that they leave private is decided by the same rule for both
(`Classifier.classify_eq_of_not_public`): the rules that look at the surface come last, and
those before them look at the reserved names only.  A symbol is a candidate if none of its
declarations is public, so their candidates are among those of the others, in the same order
(`Classifier.analyze?_mono`).
-/

import Moniker.Naming.Allocation
import Moniker.Proofs.Surface.Run
import Mathlib.Data.List.Forall2

namespace Moniker

/-- The files whose exports are public. -/
def SurfaceOptions.rootsAmong (opts : SurfaceOptions) (files : List FileId) : List FileId :=
  if opts.roots.isEmpty then files else opts.roots

/-- The second options ask for at least what the first do when these files are processed. -/
structure SurfaceOptions.Le (files : List FileId) (opts opts' : SurfaceOptions) : Prop where
  roots : opts.rootsAmong files ⊆ opts'.rootsAmong files
  externalModules : opts.externalModules ⊆ opts'.externalModules
  effectRoots : opts.effectRoots = true → opts'.effectRoots = true
  shown : opts.privateMembersInternal = false → opts'.privateMembersInternal = false
  reserved : opts.reserved ⊆ opts'.reserved

namespace Checker

variable {c : Checker σ} {a : Checker Unit} {files : List FileId} {opts opts' : SurfaceOptions}
  {hidden hidden' : Bool} {i j : Item} {k : Nat} {work : List Item} {r r' : Surface} {p q : σ}
  {m : Moment σ}

/-! ### Explorations that have ended -/

theorem steps_dropWhile : c.Steps files opts Order.lastFirst ⟨k, work, r, p⟩
    ⟨k, work.dropWhile r.contains, r, p⟩ := by
  induction work with
  | nil => exact .refl
  | cons i work ih =>
    cases h : r.contains i with
    | true =>
      rw [List.dropWhile_cons_of_pos h]
      exact .head (.seen rfl h) ih
    | false =>
      rw [List.dropWhile_cons_of_neg (by rw [h]; exact Bool.false_ne_true)]
      exact .refl

/-- An exploration that has ended was a run. -/
theorem steps_of_explore
    (h : Surface.explore (c.next opts.privateMembersInternal) work r p = some (r', q)) :
    c.Steps files opts Order.lastFirst ⟨k, work, r, p⟩ ⟨k, [], r', q⟩ := by
  refine Surface.explore.partial_correctness (c.next opts.privateMembersInternal)
    (fun work r p out => c.Steps files opts Order.lastFirst ⟨k, work, r, p⟩ ⟨k, [], out.1, out.2⟩)
    ?_ work r p (r', q) h
  intro explore ih work r p out hout
  have hdrop := @steps_dropWhile σ c files opts k work r p
  split at hout
  · next hnil =>
    obtain rfl := Option.some.inj hout
    rwa [hnil] at hdrop
  · next item rest hcons =>
    rw [hcons] at hdrop
    have hnew : r.contains item = false := by
      have h := List.head?_dropWhile_not r.contains work
      rw [hcons] at h
      simpa using h
    exact hdrop.trans (.head (.visit rfl hnew) (ih _ _ _ _ hout))

/-- What has ended was a run through all phases. -/
theorem exists_finished_of_finish (h : c.finish files opts m = some (r, q)) :
    ∃ m', c.Steps files opts Order.lastFirst m m' ∧ c.Finished files opts m' ∧ m'.surface = r := by
  obtain ⟨n, hn⟩ : ∃ n, n = (c.phases files opts).length - m.begun := ⟨_, rfl⟩
  induction n using Nat.strong_induction_on generalizing m with
  | _ n ih =>
    obtain ⟨⟨r₁, q₁⟩, hexplore, hrest⟩ := Option.bind_eq_some_iff.mp h
    have hsteps := @steps_of_explore σ c files opts m.begun m.work m.surface r₁ m.state q₁ hexplore
    rcases Nat.lt_or_ge m.begun (c.phases files opts).length with hlt | hge
    · have hbegin : c.Step files opts Order.lastFirst ⟨m.begun, [], r₁, q₁⟩ _ :=
        .begin_ (List.getElem?_eq_getElem hlt)
      have hfinish : c.finish files opts ⟨m.begun, [], r₁, q₁⟩ = some (r, q) := by
        rw [finish, Surface.explore_nil]
        exact hrest
      rw [hbegin.finish_eq] at hfinish
      obtain ⟨m', hmore, hfinished, hsurface⟩ := ih _ (by simp only; omega) hfinish rfl
      exact ⟨m', hsteps.trans (.head hbegin hmore), hfinished, hsurface⟩
    · rw [List.drop_eq_nil_of_le hge] at hrest
      obtain ⟨rfl, rfl⟩ := Prod.mk.inj (Option.some.inj hrest)
      exact ⟨_, hsteps, ⟨rfl, hge⟩, rfl⟩

theorem Follows.self (a : Checker Unit) (order : Order) : a.Follows a files opts order () where
  phase _ h h' := by rw [Option.some.inj (h.symm.trans h')]
  visit _ _ _ := rfl

/-- **An exploration that has ended has found exactly what is public.** -/
theorem contains_of_collect? (h : a.collect? files opts () = some (r, ())) (i : Item) :
    r.contains i = true ↔ a.Public files opts i := by
  rw [← finish_start] at h
  obtain ⟨m, hsteps, hfinished, rfl⟩ := exists_finished_of_finish h
  exact (Follows.self a _).contains_iff Order.lastFirst_le_any hsteps hfinished

theorem finite_contains (r : Surface) : {i | r.contains i = true}.Finite := by
  refine (r.symbols.toList.map Item.symbol ++ r.types.toList.map Item.type ++
    r.nodes.toList.map Item.node).finite_toSet.subset fun i hi => ?_
  cases i with
  | symbol s =>
    exact List.mem_append_left _ (List.mem_append_left _
      (List.mem_map_of_mem (Std.TreeSet.mem_toList.mpr hi)))
  | type t =>
    exact List.mem_append_left _ (List.mem_append_right _
      (List.mem_map_of_mem (Std.TreeSet.mem_toList.mpr hi)))
  | node n => exact List.mem_append_right _ (List.mem_map_of_mem (Std.TreeSet.mem_toList.mpr hi))

/-! ### What is public for more options -/

/-- Hiding less, items lead on to more. -/
theorem Edge.mono (hle : hidden' = true → hidden = true) (h : a.Edge hidden i j) :
    a.Edge hidden' i j := by
  cases h with
  | aliasValue hs ht => exact .aliasValue hs ht
  | aliasDeclared hs ht => exact .aliasDeclared hs ht
  | declaration hs hd => exact .declaration hs hd
  | value hs ht => exact .value hs ht
  | declared hs hdeclares ht => exact .declared hs hdeclares ht
  | declares hs => exact .declares hs
  | denotes hnone hs => exact .denotes hnone hs
  | ofNode ht => exact .ofNode ht
  | ofType hs => exact .ofType hs
  | named hs => exact .named hs
  | aliasArg hu => exact .aliasArg hu
  | typeArg hu => exact .typeArg hu
  | part hu => exact .part hu
  | member hm hshown => exact .member hm fun h => hshown ⟨hle h.1, h.2⟩
  | typeParameter hsig hs => exact .typeParameter hsig hs
  | parameter hsig hs => exact .parameter hsig hs
  | result hsig => exact .result hsig
  | constraint hu => exact .constraint hu
  | base hu => exact .base hu
  | instance_ hu => exact .instance_ hu

theorem Root.mono (hle : opts.Le files opts') (h : a.Root files opts i) :
    a.Root files opts' i := by
  cases h with
  | exported hf hs => exact .exported (hle.roots hf) hs
  | globalVariable hf hscope hs hglobal hblock =>
    exact .globalVariable hf hscope hs hglobal hblock
  | foreignType hf hscope hs hglobal hvalue hforeign =>
    exact .foreignType hf hscope hs hglobal hvalue hforeign
  | external hname hs => exact .external (hle.externalModules hname) hs
  | effect hon hf hn => exact .effect (hle.effectRoots hon) hf hn

/-- **What is public stays public for more options.** -/
theorem Public.mono (hle : opts.Le files opts') (h : a.Public files opts i) :
    a.Public files opts' i := by
  obtain ⟨root, hroot, hpath⟩ := h
  have hhides : opts'.privateMembersInternal = true → opts.privateMembersInternal = true := by
    intro h'
    by_contra hne
    exact Bool.false_ne_true ((hle.shown (Bool.not_eq_true _ ▸ hne)).symm.trans h')
  exact ⟨root, hroot.mono hle,
    Relation.ReflTransGen.mono (fun _ _ h => ⟨h.1.mono hhides, h.2⟩) _ _ hpath⟩

/-- **Exploring ends for fewer options** if it ends for more, with less. -/
theorem exists_collect?_of_le (hle : opts.Le files opts')
    (h : a.collect? files opts' () = some (r', ())) :
    ∃ r, a.collect? files opts () = some (r, ()) ∧
      ∀ i, r.contains i = true → r'.contains i = true := by
  have hfinite : {i | a.Public files opts i}.Finite := by
    refine (finite_contains r').subset fun i hi => ?_
    exact (contains_of_collect? h i).mpr (hi.mono hle)
  obtain ⟨r, q, hcollect, hcontains⟩ := (Follows.self a _).exists_collect? hfinite
  refine ⟨r, hcollect, fun i hi => ?_⟩
  exact (contains_of_collect? h i).mpr (((hcontains i).mp hi).mono hle)

end Checker

/-! ### Rules -/

namespace Classifier

variable {c : Classifier Unit} {r r' : Surface} {reserved reserved' : List String}
  {rec : ScopedSymbol} {files : List FileId} {opts opts' : SurfaceOptions}

/-- A rule tried before changes nothing. -/
theorem reserved_or_eq_ite {b : Prop} [Decidable b] {x y z : Option Reason}
    (h : y = some .reserved ∨ y = z) :
    (if b then x else y) = some .reserved ∨ (if b then x else y) = if b then x else z := by
  split
  · exact .inr rfl
  · exact h

/-- **With more reserved names** the same plain rule decides, or the name is reserved. -/
theorem plainReason?_mono (hle : reserved ⊆ reserved') (rec : ScopedSymbol) :
    c.plainReason? () reserved' rec = some .reserved ∨
      c.plainReason? () reserved' rec = c.plainReason? () reserved rec := by
  unfold plainReason?
  iterate 6 refine reserved_or_eq_ite ?_
  by_cases hnow : reserved'.contains (c.symbol () rec.symbol).name = true
  · exact .inl (if_pos hnow)
  · have hbefore : ¬ reserved.contains (c.symbol () rec.symbol).name = true := by
      simp only [List.contains_iff_mem] at hnow ⊢
      exact fun h => hnow (hle h)
    rw [if_neg hnow, if_neg hbefore]
    exact .inr rfl

theorem hasType_mono (hle : ∀ i, r.contains i = true → r'.contains i = true) {t? : Option TypeId}
    (h : c.hasType r t? () = true) : c.hasType r' t? () = true := by
  cases t? with
  | none => exact h
  | some t =>
    obtain ⟨hentered, ht⟩ := Bool.and_eq_true_iff.mp h
    exact Bool.and_eq_true_iff.mpr ⟨hentered, hle (.type t) ht⟩

/-- Without a state, asking one of two questions gives the answer of that one. -/
theorem value_ite {b : Prop} [Decidable b] {x y : StateM Unit α} :
    ((if b then x else y) ()).1 = if b then (x ()).1 else (y ()).1 := by
  split
  · rfl
  · rfl

theorem isRelated_value (r : Surface) (s : SymbolId) :
    (c.isRelated r s ()).1 = if r.symbols.contains s then true else
      (c.hasType r (c.typeOfSymbol s ()).1 () ||
        (c.symbol () s).decls.any fun d => r.nodes.contains d) := by
  unfold isRelated
  rw [value_ite]
  rfl

theorem isRelated_mono (hle : ∀ i, r.contains i = true → r'.contains i = true) {s : SymbolId}
    (h : (c.isRelated r s ()).1 = true) : (c.isRelated r' s ()).1 = true := by
  rw [isRelated_value] at h ⊢
  split
  · rfl
  · next hnot =>
    have hbefore : ¬ r.symbols.contains s = true := fun hs => hnot (hle (.symbol s) hs)
    rw [if_neg hbefore, Bool.or_eq_true] at h
    rw [Bool.or_eq_true]
    refine h.imp (hasType_mono hle) fun h => ?_
    obtain ⟨d, hd, h⟩ := List.any_eq_true.mp h
    exact List.any_eq_true.mpr ⟨d, hd, hle (.node d) h⟩

theorem anyOnSurface_value (r : Surface) (nodes : List NodeId) :
    (c.anyOnSurface r nodes ()).1 = nodes.any fun n => c.hasType r (c.typeOfNode n ()).1 () := by
  induction nodes with
  | nil => rfl
  | cons n rest ih =>
    rw [anyOnSurface, Checker.value_bind, Checker.value_bind, value_ite, List.any_cons, ← ih]
    cases c.hasType r (c.typeOfNode n ()).1 () with
    | true => rfl
    | false => rfl

theorem annotatedPublic_mono (hle : ∀ i, r.contains i = true → r'.contains i = true)
    {decl : NodeId} (h : (c.annotatedPublic r decl ()).1 = true) :
    (c.annotatedPublic r' decl ()).1 = true := by
  unfold annotatedPublic at h ⊢
  rw [Checker.value_bind, anyOnSurface_value] at h ⊢
  obtain ⟨n, hn, h⟩ := List.any_eq_true.mp h
  exact List.any_eq_true.mpr ⟨n, hn, hasType_mono hle h⟩

/-- The rules in order. -/
theorem classify_value (r : Surface) (reserved : List String) (rec : ScopedSymbol) :
    (c.classify r reserved rec ()).1 =
      match c.plainReason? () reserved rec with
      | some reason => reason
      | none =>
        if (c.isRelated r rec.symbol ()).1 then .related
        else
          match rec.owner with
          | none => .internal
          | some owner =>
            if (c.overrides rec.symbol owner ()).1 then .overriding
            else if (c.annotatedPublic r rec.decl ()).1 then .publicAnnotated
            else .internal := by
  unfold classify
  rw [Checker.value_bind]
  change Prod.fst ((match c.plainReason? () reserved rec with
    | some reason => pure reason
    | none => _ : StateM Unit Reason) ()) = _
  cases c.plainReason? () reserved rec with
  | some reason => rfl
  | none =>
    dsimp only
    rw [Checker.value_bind, value_ite]
    cases rec.owner with
    | none => rfl
    | some owner =>
      dsimp only
      rw [Checker.value_bind, value_ite, Checker.value_bind, value_ite]
      rfl

/-- **What stays private is decided by the same rule** for fewer options. -/
theorem classify_eq_of_not_public (hsurface : ∀ i, r.contains i = true → r'.contains i = true)
    (hreserved : reserved ⊆ reserved')
    (h : (c.classify r' reserved' rec ()).1.visibility ≠ .public_) :
    (c.classify r reserved rec ()).1 = (c.classify r' reserved' rec ()).1 := by
  rw [classify_value] at h
  rw [classify_value, classify_value]
  rcases plainReason?_mono hreserved rec with hplain | hplain
  · rw [hplain] at h
    exact absurd rfl h
  rw [hplain] at h ⊢
  generalize c.plainReason? () reserved rec = reason? at h ⊢
  cases reason? with
  | some reason => rfl
  | none =>
    dsimp only at h ⊢
    split at h
    · exact absurd rfl h
    · next hrelated =>
      rw [if_neg hrelated, if_neg fun h => hrelated (isRelated_mono hsurface h)]
      generalize rec.owner = owner? at h ⊢
      cases owner? with
      | none => rfl
      | some owner =>
        dsimp only at h ⊢
        split at h
        · exact absurd rfl h
        · next hoverrides =>
          rw [if_neg hoverrides, if_neg hoverrides]
          split at h
          · exact absurd rfl h
          · next hannotated =>
            rw [if_neg hannotated, if_neg fun h => hannotated (annotatedPublic_mono hsurface h)]

/-! ### Entries and candidates -/

/-- The entry of a declaration on a surface. -/
def entryOf (c : Classifier Unit) (r : Surface) (reserved : List String) (rec : ScopedSymbol) :
    Entry :=
  { rec with reason := (c.classify r reserved rec ()).1 }

theorem mapM_value (f : β → StateM Unit γ) (xs : List β) :
    ((xs.mapM f) ()).1 = xs.map fun x => (f x ()).1 := by
  induction xs with
  | nil => rfl
  | cons x xs ih =>
    rw [List.mapM_cons, Checker.value_bind, Checker.value_bind, List.map_cons, ← ih]
    rfl

/-- **An analysis has one entry for each declaration** of the files. -/
theorem entries_analyzeWith (r : Surface) (reserved : List String) (files : List FileId) :
    (c.analyzeWith r reserved files ()).1.entries =
      (files.flatMap (c.scopedSymbols ())).map (c.entryOf r reserved) := by
  have hfile (f : FileId) : (c.analyzeFile r reserved f ()).1.entries =
      (c.scopedSymbols () f).map (c.entryOf r reserved) := by
    unfold analyzeFile
    rw [Checker.value_bind]
    exact mapM_value _ _
  have hfiles : (c.analyzeWith r reserved files ()).1.files =
      files.map fun f => (c.analyzeFile r reserved f ()).1 := mapM_value _ _
  rw [Analysis.entries, hfiles, List.flatMap_map, List.map_flatMap]
  exact List.flatMap_congr fun f _ => hfile f

end Classifier

namespace Analysis

variable {a b : Analysis} {seen seen' : List SymbolId} {es es' : List Entry} {v : Visibility}

/-- The entries are for the same declaration; if the second is not public they are the same. -/
structure Agrees (e e' : Entry) : Prop where
  declaration : e'.toScopedSymbol = e.toScopedSymbol
  same : e'.visibility ≠ .public_ → e = e'

/-- A declaration that is public for one stays so. -/
theorem Agrees.public {e e' : Entry} (h : Agrees e e') (hpublic : e.visibility = .public_) :
    e'.visibility = .public_ := by
  by_contra hne
  exact hne (h.same hne ▸ hpublic)

/-- Seeing more symbols, one takes fewer first entries. -/
theorem firstEntries_sublist (hseen : seen ⊆ seen') (h : List.Forall₂ Agrees es es')
    (hv : v ≠ .public_) :
    ((firstEntries seen' es').filter fun e => e.visibility == v).Sublist
      ((firstEntries seen es).filter fun e => e.visibility == v) := by
  induction h generalizing seen seen' with
  | nil => exact .slnil
  | @cons e e' es es' he hes ih =>
    have hsymbol : e'.symbol = e.symbol := by rw [he.declaration]
    have hskip {seen : List SymbolId} : ((firstEntries seen es).filter
        fun e => e.visibility == v).Sublist
          ((e :: firstEntries seen es).filter fun e => e.visibility == v) :=
      (List.sublist_cons_self _ _).filter _
    simp only [firstEntries, List.contains_iff_mem, hsymbol]
    by_cases hin' : e.symbol ∈ seen'
    · rw [if_pos hin']
      by_cases hin : e.symbol ∈ seen
      · rw [if_pos hin]
        exact ih hseen
      · rw [if_neg hin]
        exact (ih (List.cons_subset.mpr ⟨hin', hseen⟩)).trans hskip
    · rw [if_neg hin', if_neg fun hin => hin' (hseen hin)]
      have hrest := ih (List.cons_subset_cons e.symbol hseen)
      by_cases hvis : e'.visibility = v
      · obtain rfl := he.same (hvis ▸ hv)
        rw [List.filter_cons_of_pos (by simpa using hvis),
          List.filter_cons_of_pos (by simpa using hvis)]
        exact hrest.cons_cons e
      · rw [List.filter_cons_of_neg (by simpa using hvis)]
        exact hrest.trans hskip

/-- The second analysis is of the same declarations; it makes public what the first one does,
and perhaps more, so its candidates are among those of the first. -/
structure Narrows (a b : Analysis) : Prop where
  entries : List.Forall₂ (fun e e' => e'.toScopedSymbol = e.toScopedSymbol ∧
    (e.visibility = .public_ → e'.visibility = .public_)) a.entries b.entries
  general : b.general.Sublist a.general
  hardPrivates : b.hardPrivates.Sublist a.hardPrivates

theorem exists_agrees (h : List.Forall₂ Agrees es es') {e : Entry} (he : e ∈ es) :
    ∃ e' ∈ es', Agrees e e' := by
  induction h with
  | nil => exact nomatch he
  | cons hagrees _ ih =>
    rcases List.mem_cons.mp he with rfl | he
    · exact ⟨_, List.mem_cons_self, hagrees⟩
    · obtain ⟨e', hmem, hagrees⟩ := ih he
      exact ⟨e', List.mem_cons_of_mem _ hmem, hagrees⟩

theorem narrows_of_agrees (h : List.Forall₂ Agrees a.entries b.entries) : a.Narrows b := by
  have hblocked : a.blocked ⊆ b.blocked := by
    intro s hs
    obtain ⟨e, he, rfl⟩ := List.mem_map.mp hs
    obtain ⟨hmem, hpublic⟩ := List.mem_filter.mp he
    obtain ⟨e', hmem', hagrees⟩ := exists_agrees h hmem
    refine List.mem_map.mpr ⟨e', List.mem_filter.mpr ⟨hmem', ?_⟩, by rw [hagrees.declaration]⟩
    exact beq_iff_eq.mpr (hagrees.public (beq_iff_eq.mp hpublic))
  exact ⟨h.imp fun _ _ he => ⟨he.declaration, he.public⟩,
    firstEntries_sublist hblocked h (by decide), firstEntries_sublist hblocked h (by decide)⟩

end Analysis

namespace Classifier

variable {c : Classifier Unit} {files : List FileId} {opts : SurfaceOptions} {r : Surface}

/-- An analysis ends if exploring its surface does. -/
theorem analyze?_of_collect? (h : c.collect? files opts () = some (r, ())) :
    c.analyze? files opts () = some ((c.analyzeWith r opts.reserved files ()).1, ()) := by
  rw [analyze?, h]
  rfl

/-- **More options make more public.** If an analysis ends, so does the one for fewer options:
every declaration that it makes public is public for more options, and the candidates left for
those are among its candidates, general ones among general ones and hard-private ones among
hard-private ones. -/
theorem analyze?_mono (c : Classifier Unit) (files : List FileId) (opts opts' : SurfaceOptions)
    (b : Analysis) (hle : opts.Le files opts') (hb : c.analyze? files opts' () = some (b, ())) :
    ∃ a, c.analyze? files opts () = some (a, ()) ∧ a.Narrows b := by
  obtain ⟨⟨r', u⟩, hcollect', hb⟩ := Option.map_eq_some_iff.mp hb
  obtain rfl : (c.analyzeWith r' opts'.reserved files ()).1 = b := congrArg Prod.fst hb
  obtain ⟨r, hcollect, hsurface⟩ := Checker.exists_collect?_of_le hle hcollect'
  refine ⟨_, analyze?_of_collect? hcollect, Analysis.narrows_of_agrees ?_⟩
  rw [entries_analyzeWith, entries_analyzeWith, List.forall₂_map_left_iff,
    List.forall₂_map_right_iff, List.forall₂_same]
  intro rec _
  exact ⟨rfl, fun h => congrArg (fun reason => ({ rec with reason := reason } : Entry))
    (classify_eq_of_not_public hsurface hle.reserved h)⟩

/-- The class that refers to itself, with its declarations. -/
def selfReference : Classifier Unit where
  toChecker := Checker.selfReference
  declarations _ _ :=
    [{ symbol := ⟨0⟩, decl := ⟨0⟩, scope := some ⟨1⟩ },
     { symbol := ⟨1⟩, decl := ⟨1⟩, owner := some ⟨0⟩ },
     { symbol := ⟨2⟩, decl := ⟨2⟩, owner := some ⟨0⟩ }]
  outward _ s := if s.idx = 0 then [s] else [s, ⟨0⟩]
  parent _ n := some n
  child? _ _ _ := none
  property? _ _ _ := none

/-- Members marked `private` are hidden first and then shown. -/
theorem analyze?_mono_selfReference :
    SurfaceOptions.Le [⟨0⟩] Checker.hidesPrivates {} ∧
    ∃ b, selfReference.analyze? [⟨0⟩] {} () = some (b, ()) ∧
      ∃ a, selfReference.analyze? [⟨0⟩] Checker.hidesPrivates () = some (a, ()) ∧ a.Narrows b := by
  have hle : SurfaceOptions.Le [⟨0⟩] Checker.hidesPrivates {} :=
    ⟨fun _ h => h, fun _ h => h, fun h => h, fun _ => rfl, fun _ h => h⟩
  have hfinite : {i | Checker.selfReference.Public [⟨0⟩] {} i}.Finite :=
    Checker.finite_public [.symbol ⟨0⟩, .node ⟨0⟩, .type ⟨0⟩, .type ⟨1⟩, .symbol ⟨1⟩, .node ⟨1⟩,
      .symbol ⟨2⟩, .node ⟨2⟩] (by decide) (by decide)
  obtain ⟨r, q, hcollect, -⟩ :=
    (Checker.Follows.self Checker.selfReference _).exists_collect? hfinite
  have hb : selfReference.analyze? [⟨0⟩] {} () = some (_, ()) := analyze?_of_collect? hcollect
  exact ⟨hle, _, hb, analyze?_mono selfReference [⟨0⟩] Checker.hidesPrivates {} _ hle hb⟩

end Classifier
end Moniker
