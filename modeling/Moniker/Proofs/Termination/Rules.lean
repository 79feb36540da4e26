/-
# Rules keep the graph of types sound

Every rule is safe if the questions it asks are, and it asks no question that could lead back
to it unopened.  `Scene.level` orders the questions by what they lead to without opening one:
the questions about nodes, and about symbols that were there before, are opened themselves.
A symbol made by the way leads to its shape, to a function or to nodes; a function leads to
nodes; and what is expected at a node leads outwards in the tree, and to the other three.

The rules are stated for questions below a level `l`, as far up as they ask.
-/

import Moniker.Proofs.Layout
import Moniker.Proofs.Termination.Safe
import Moniker.Typing.Answer

namespace Moniker

open Program (Retains)
open Typing (Scene Sound Memo)
open Query (Safe New anything)

namespace Typing

/-- How far the questions go that a question leads to before one is opened. -/
def Scene.level (c : Scene) (src : Source) : Question → Nat
  | .meaning _ | .expression _ | .position _ => 0
  | .valueOf s => if s.idx < c.symbols then 0 else 2
  | .declaredBy s => if s.idx < c.symbols then 0 else 1
  | .function _ => 1
  | .context n => 3 + min n.idx src.nodes.size

/-- All levels are below this one. -/
def levels (src : Source) : Nat := src.nodes.size + 4

variable {c : Scene} {src : Source} {s : SymbolId} {m n : NodeId}

theorem four_le_levels : 4 ≤ levels src := Nat.le_add_left ..

theorem two_lt_of_levels_le {l : Nat} (h : levels src ≤ l) : 2 < l :=
  (show 2 < 4 by decide).trans_le (four_le_levels.trans h)

theorem level_valueOf_le : c.level src (.valueOf s) ≤ 2 := by
  change (if s.idx < c.symbols then 0 else 2) ≤ 2
  split <;> omega

theorem level_valueOf_of_lt (h : s.idx < c.symbols) : c.level src (.valueOf s) = 0 := if_pos h

theorem level_declaredBy_le : c.level src (.declaredBy s) ≤ 1 := by
  change (if s.idx < c.symbols then 0 else 1) ≤ 1
  split <;> omega

theorem level_context_le : 3 ≤ c.level src (.context n) := Nat.le_add_right ..

theorem level_lt_levels (q : Question) : c.level src q < levels src := by
  have hleast : 2 < levels src := two_lt_of_levels_le le_rfl
  cases q with
  | meaning | expression | position => exact Nat.zero_lt_of_lt hleast
  | function => exact (show 1 < 2 by decide).trans hleast
  | valueOf s => exact level_valueOf_le.trans_lt hleast
  | declaredBy s => exact level_declaredBy_le.trans_lt ((show 1 < 2 by decide).trans hleast)
  | context n =>
    have hle : min n.idx src.nodes.size ≤ src.nodes.size := Nat.min_le_right ..
    change 3 + min n.idx src.nodes.size < src.nodes.size + 4
    omega

/-- Outwards in the tree the level goes down. -/
theorem level_context_lt (hn : n.idx < src.nodes.size) (hm : m.idx < n.idx) :
    c.level src (.context m) < c.level src (.context n) := by
  change 3 + min m.idx src.nodes.size < 3 + min n.idx src.nodes.size
  omega

end Typing

theorem Source.LaidOut.idx_lt_of_mem_ancestors {src : Source} (hs : src.LaidOut) {n a : NodeId}
    (h : a ∈ src.ancestors n) : a.idx < n.idx := by
  unfold Source.ancestors at h
  generalize src.nodes.size = fuel at h
  induction fuel generalizing n with
  | zero => exact nomatch h
  | succ fuel ih =>
    unfold Source.ancestorsWithin at h
    split at h
    · exact nomatch h
    · next m hparent =>
      have hlt := (hs.parent_lt hparent).1
      rcases List.mem_cons.mp h with rfl | h
      · exact hlt
      · exact (ih h).trans hlt

section

variable {src : Source} {ask : Ask src} {c : Scene} {p q r : Program} {l : Nat}
  (h : ∀ q, c.level src q < l → ∀ p, Safe c p c.SeesAll (ask q))
include h

/-! ### Questions -/

namespace Ask

theorem known_safe {q : Question} (hq : c.level src q < l) : Safe c p c.Sees (ask.known q) := by
  refine .bind (h q hq p) fun r t? _ ht => ?_
  split
  · exact .pure (ht _ rfl)
  · exact Query.unknown_safe

theorem valueOf_safe_of_level {s? : Option SymbolId}
    (hs : ∀ s ∈ s?, c.level src (.valueOf s) < l) : Safe c p c.Sees (ask.valueOf s?) := by
  cases s? with
  | none => exact Query.unknown_safe
  | some s => exact known_safe h (hs s rfl)

theorem valueOf_safe (hl : 2 < l) (s? : Option SymbolId) : Safe c p c.Sees (ask.valueOf s?) :=
  valueOf_safe_of_level h fun _ _ => Typing.level_valueOf_le.trans_lt hl

theorem declaredBy_safe (hl : 1 < l) (s? : Option SymbolId) :
    Safe c p c.SeesAll (ask.declaredBy s?) := by
  cases s? with
  | none => exact .pure Scene.seesAll_none
  | some s => exact h _ (Typing.level_declaredBy_le.trans_lt hl) p

theorem meaning_safe (hl : 0 < l) (n? : Option NodeId) : Safe c p c.Sees (ask.meaning n?) := by
  cases n? with
  | none => exact Query.unknown_safe
  | some n => exact known_safe h hl

theorem expression_safe (hl : 0 < l) (n? : Option NodeId) : Safe c p c.Sees (ask.expression n?) := by
  cases n? with
  | none => exact Query.unknown_safe
  | some n => exact known_safe h hl

end Ask

namespace Typing

open Query Ask

theorem typeOfProperty_safe (hl : 2 < l) (t : TypeId) (name : String) :
    Safe c p c.Sees (typeOfProperty ask t name) := .read_bind fun _ => valueOf_safe h hl _

/-! ### Signatures -/

section

variable (hl : 0 < l)
include hl

theorem inferResult_safe (fn : NodeId) : Safe c p c.Sees (inferResult src ask fn) := by
  unfold inferResult
  split
  · exact intrinsic_safe _
  · split
    · exact expression_safe h hl _
    · refine .bind (.mapM_sees fun _ _ _ => expression_safe h hl _) fun q results _ hresults => ?_
      split
      · exact intrinsic_safe _
      · exact composite_safe _ hresults

omit h hl in
theorem parameterSymbol_safe (fn pattern : NodeId) :
    Safe c p anything (parameterSymbol src fn pattern) := by
  refine .read_bind fun _ => ?_
  split
  · exact .pure trivial
  · exact newSymbol_safe _ (show (Traits.of [.parameter]).meets Traits.leading = false by decide) rfl

omit h hl in
theorem parametersOf_safe (fn : NodeId) : Safe c p anything (parametersOf src fn) := by
  refine .read_bind fun _ => ?_
  split
  · exact .pure trivial
  · exact .bind (.mapM (fun _ _ _ _ _ => trivial) fun _ _ _ => parameterSymbol_safe fn _)
      fun _ _ _ _ => .pure trivial

theorem signatureOf_safe (fn : NodeId) : Safe c p c.SeesResult (signatureOf src ask fn) := by
  refine .read_bind fun _ => .bind (parametersOf_safe fn) fun _ _ _ _ => ?_
  dsimp only
  split
  · exact .bind (meaning_safe h hl _) fun _ _ _ ht => .pure ht
  · split
    · exact .bind unknown_safe fun _ _ _ ht => .pure ht
    · exact .bind (inferResult_safe h hl fn) fun _ _ _ ht => .pure ht

theorem functionType_safe (fn : NodeId) : Safe c p c.Sees (functionType src ask fn) := by
  refine .read_bind fun hp => ?_
  split
  · next t ht => exact .pure (hp.memos (.function fn) t ht)
  · refine .read_bind fun _ => .bind (objectType_safe _ _) fun q t _ ht =>
      .bind (.learn (.function fn) rfl ht.seen) fun q' _ hq _ =>
      .bind (signatureOf_safe h hl fn) fun r sig hr hsig => ?_
    have hqr := hq.trans hr
    exact .bind (.setSignatures (ht.kind_eq hqr) (List.forall_mem_singleton.mpr hsig))
      fun _ _ hend _ => .pure (ht.sees (hqr.trans hend))

theorem callSignatures_safe (body : NodeId) :
    Safe c p c.SeesResults (callSignatures src ask body) :=
  .mapM_results fun _ _ _ => signatureOf_safe h hl _

theorem interfaceSignatures_safe (sym : Symbol) :
    Safe c p c.SeesResults (interfaceSignatures src ask sym) := by
  refine .bind (.mapM (fun _ _ _ hqr hsigs => hsigs.retained hqr) fun _ _ _ =>
    callSignatures_safe h hl _) fun q sigs _ hsigs => .pure fun sig hsig => ?_
  obtain ⟨own, hown, hsig⟩ := List.mem_flatten.mp hsig
  exact hsigs own hown sig hsig

end

theorem functionTypeOfSymbol_safe (hl : 1 < l) (s : SymbolId) :
    Safe c p c.Sees (functionTypeOfSymbol src ask s) := by
  refine .read_bind fun _ => ?_
  dsimp only
  split
  · exact known_safe h hl
  · exact .bind (objectType_safe _ _) fun q t _ ht =>
      .bind (.mapM_results fun _ _ _ => signatureOf_safe h (by omega) _) fun r sigs hqr hsigs =>
      .bind (.setSignatures (ht.kind_eq hqr) hsigs) fun _ _ hend _ => .pure (ht.sees (hqr.trans hend))

/-! ### Type expressions -/

section

variable (hl : 2 < l)
include hl

theorem instantiate_safe (s : SymbolId) (args : List TypeId) :
    Safe c p c.SeesAll (instantiate src ask s args) := by
  refine .bind (declaredBy_safe h (by omega) _) fun q base? _ hbase => ?_
  split
  · exact .pure Scene.seesAll_none
  · next base =>
    refine .read_bind fun hq => ?_
    split
    · exact .pure hbase
    · obtain ⟨hparts, hbases, hargs, hresults, hinstance⟩ := hq.infos base
      refine .bind (.newType (fun _ => ⟨hparts, hbases, hargs, hresults, hinstance⟩) fun _ hkind => ?_)
        fun _ _ _ ht => .pure (Scene.seesAll_some ht.seen)
      exact (hq.composed base hkind).congr (fun _ _ => ⟨rfl, id⟩) rfl ⟨rfl, rfl⟩

omit h hl in
theorem linkMember_safe {own : List LiteralShape} {n : NodeId} {name : String}
    {find : Program → Option SymbolId} {hn : src.IsMemberUse n} {hname : src.Spells n name}
    {hfind : ∀ p m, find p = some m → p.Lists name m} :
    Safe c p anything (linkMember n name find hn hname hfind : Query src own (Option SymbolId)) := by
  intro hp
  unfold linkMember
  dsimp only
  split
  · exact ⟨hp, .refl p, trivial⟩
  · dsimp only
    split
    · exact ⟨hp, .refl p, trivial⟩
    · exact ⟨hp.of_memory rfl rfl (hp.toSettled.congr rfl rfl) rfl rfl, .of_types_eq rfl, trivial⟩

/-- The end of a qualified type, once the member it names has been looked up. -/
theorem qualifiedMember_safe (n : NodeId) (member? : Option SymbolId) :
    Safe c p c.Sees (match member? with
      | none => (foreign (src.text n) [] : Query src [] TypeId)
      | some member => ask.known (.declaredBy member)) := by
  cases member? with
  | none => exact foreign_safe _ Scene.seesAll_nil
  | some member => exact known_safe h (level_declaredBy_le.trans_lt (by omega))

theorem qualifiedType_safe (n : NodeId) (hn : src.kind n = "nested_type_identifier") :
    Safe c p c.Sees (qualifiedType src ask n hn) := by
  unfold qualifiedType
  split
  · refine .read_bind fun _ => ?_
    dsimp only
    split
    · exact .bind (resolveAlias_safe _) fun _ _ _ _ => .bind linkMember_safe fun _ _ _ _ =>
        qualifiedMember_safe h hl n _
    · exact .bind (V := anything) (.pure trivial) fun _ _ _ _ => .bind linkMember_safe
        fun _ _ _ _ => qualifiedMember_safe h hl n _
  · exact unknown_safe

theorem typeArguments_safe (n : NodeId) : Safe c p c.SeesAll (typeArguments src ask n) := by
  unfold typeArguments
  split
  · exact .mapM_sees fun _ _ _ => meaning_safe h (by omega) _
  · exact .pure Scene.seesAll_nil

theorem applyType_safe (s : SymbolId) {args : List TypeId} (hargs : c.SeesAll p args) :
    Safe c p c.SeesAll (applyType src ask s args) := by
  refine .bind (resolveAlias_safe s) fun q _ hpq _ => .read_bind fun _ => ?_
  split
  · exact instantiate_safe h hl _ _
  · refine .bind (declaredBy_safe h (by omega) _) fun r base? hqr hbase => ?_
    split
    · exact .bind unknown_safe fun _ _ _ ht => .pure (Scene.seesAll_some ht)
    · next base =>
      refine .read_bind fun hr => ?_
      split
      · exact .pure hbase
      · next hargs' =>
        refine .read_bind fun _ => .bind (.newType (fun _ => ?_) fun _ _ => ?_) fun _ _ _ ht =>
          .pure (Scene.seesAll_some ht.seen)
        · exact ⟨nofun, (hr.infos base).bases, hargs.retained (hpq.trans hqr),
            (hr.infos base).results, nofun⟩
        · refine ⟨List.nodup_nil, .inr ⟨rfl, fun hnil => hargs' ?_⟩, nofun⟩
          rw [show args = [] from hnil, List.isEmpty_nil, Bool.or_true]

theorem genericType_safe (n : NodeId) : Safe c p c.SeesAll (genericType src ask n) := by
  refine .bind (typeArguments_safe h hl n) fun q args _ hargs => ?_
  split
  · exact .some (foreign_safe _ hargs)
  · split
    · refine .bind (meaning_safe h (by omega) _) fun r base hqr hbase => .read_bind fun _ => ?_
      have hargs := hargs.retained hqr
      split
      · exact .some (foreign_safe _ (List.forall_mem_cons.mpr ⟨hbase, hargs⟩))
      · exact applyType_safe h hl _ hargs
    · refine .read_bind fun _ => ?_
      split
      · exact .some (foreign_safe _ hargs)
      · exact applyType_safe h hl _ hargs

/-- The end of the type of `T["key"]`, once the property has been looked up. -/
theorem lookupMember_safe {object : TypeId} (hobject : c.Sees p object) (index : NodeId)
    (member? : Option SymbolId) : Safe c p c.Sees (match member? with
      | some m => ask.valueOf (some m)
      | none => do
        let indexType ← ask.meaning (some index)
        foreign "lookup" [object, indexType]) := by
  cases member? with
  | some m => exact valueOf_safe h hl _
  | none =>
    exact .bind (meaning_safe h (by omega) _) fun _ _ hqr hindex =>
      foreign_safe _ (Scene.seesAll_pair (hobject.retained hqr) hindex)

theorem lookupType_safe (n : NodeId) (hn : src.kind n = "lookup_type") :
    Safe c p c.Sees (lookupType src ask n hn) := by
  unfold lookupType
  split
  · refine .bind (meaning_safe h (by omega) _) fun q object _ hobject => ?_
    split
    · exact .bind linkMember_safe fun _ _ hqr _ =>
        lookupMember_safe h hl (hobject.retained hqr) _ _
    · exact .bind (V := anything) (.pure trivial) fun _ _ hqr _ =>
        lookupMember_safe h hl (hobject.retained hqr) _ _
  · exact unknown_safe

theorem thisMeaning_safe (n : NodeId) : Safe c p c.SeesAll (thisMeaning src ask n) := by
  unfold thisMeaning
  split
  · exact .some unknown_safe
  · refine .read_bind fun _ => ?_
    split
    · exact declaredBy_safe h (by omega) _
    · split
      · exact .read_bind fun _ => declaredBy_safe h (by omega) _
      · exact .some unknown_safe

theorem tupleElement_safe (n : NodeId) : Safe c p c.Sees (tupleElement src ask n) := by
  unfold tupleElement
  split <;> exact meaning_safe h (by omega) _

/-- The elements of an array are asked for while the array is hidden. -/
theorem annotationType_safe
    (hhide : ∀ t q, (c.hide t).level src q < l →
      ∀ p, Safe (c.hide t) p (c.hide t).SeesAll (ask q))
    (n : NodeId) : Safe c p c.SeesAll (annotationType src ask n) := by
  have hmeaning (p : Program) (n? : Option NodeId) : Safe c p c.Sees (ask.meaning n?) :=
    meaning_safe h (by omega) _
  have hdeclaredBy (p : Program) (s? : Option SymbolId) : Safe c p c.SeesAll (ask.declaredBy s?) :=
    declaredBy_safe h (by omega) _
  have hparts (p : Program) (cs : List NodeId) :
      Safe c p c.SeesAll (cs.mapM fun c => ask.meaning (some c)) := .mapM_sees fun _ _ _ => hmeaning _ _
  unfold annotationType
  split
  -- Annotations and brackets mean what is in them.
  iterate 10 exact .some (hmeaning _ _)
  iterate 9 exact .some (intrinsic_safe _)
  · refine .read_bind fun _ => ?_
    split
    · exact hdeclaredBy _ _
    · exact .some (foreign_safe _ Scene.seesAll_nil)
  · exact .some (qualifiedType_safe h hl n _)
  · exact genericType_safe h hl n
  · refine .read_bind fun _ => ?_
    split
    · exact hdeclaredBy _ _
    · exact .some unknown_safe
  iterate 2 exact .bind (hparts _ _) fun _ _ _ hparts => .some (composite_safe _ hparts)
  iterate 2 exact h (.function n) (show 1 < l by omega) p
  · exact .newArray fun t _ _ _ => .imp (meaning_safe (hhide t) (by omega) _) fun _ _ helement =>
      List.forall_mem_singleton.mpr helement
  · exact .newArray fun t _ _ _ => .mapM_sees fun _ _ _ => tupleElement_safe (hhide t) hl _
  · exact .some (lookupType_safe h hl n _)
  · exact .bind (hmeaning _ _) fun _ _ _ ht =>
      .some (foreign_safe _ (List.forall_mem_singleton.mpr ht))
  · split
    · exact .some (expression_safe h (by omega) _)
    · exact .some unknown_safe
  · exact .bind (hparts _ _) fun _ _ _ hparts => .some (foreign_safe _ hparts)
  · split
    · exact .read_bind fun _ => hdeclaredBy _ _
    · exact .some unknown_safe
  iterate 2
    split
    · exact .bind (hmeaning _ _) fun _ _ _ ht =>
        .some (foreign_safe _ (List.forall_mem_singleton.mpr ht))
    · exact .some (hmeaning _ _)
    · exact .some (intrinsic_safe _)
  · exact thisMeaning_safe h hl n
  · exact .some unknown_safe

end

/-! ### Declared types -/

omit h in
theorem setDeclaredType_safe (s : SymbolId) {t : TypeId} (ht : c.Sees p t) :
    Safe c p anything (setDeclaredType src s t) := .learn (.answer (.declaredBy s)) rfl ht

section

variable (hl : 0 < l)
include hl

theorem heritageType?_safe (clause : NodeId) :
    Safe c p c.SeesAll (heritageType? src ask clause) := by
  unfold heritageType?
  split
  · exact .some (meaning_safe h hl _)
  · refine .bind (expression_safe h hl _) fun q side _ hside => .read_bind fun hq => ?_
    have hinstance := (hq.infos side).instance?
    split
    · next t heq => exact .pure (Scene.seesAll_some (hinstance t heq))
    · split
      · exact .pure Scene.seesAll_none
      · exact .pure (Scene.seesAll_some hside)

theorem nominalType_safe (s : SymbolId) : Safe c p c.Sees (nominalType src ask s) := by
  refine .read_bind fun _ => .bind (objectType_safe _ _) fun q₁ t _ ht =>
    .bind (setDeclaredType_safe s ht.seen) fun q₂ _ h₂ _ =>
    .bind (interfaceSignatures_safe h hl _) fun q₃ sigs h₃ hsigs =>
    .bind (.setSignatures (ht.kind_eq (h₂.trans h₃)) hsigs) fun q₄ _ h₄ _ =>
    .bind (.forM fun clause q _ => .bind (heritageType?_safe h hl clause) fun r base? _ hbase => ?_)
      fun q₅ _ h₅ _ => .pure (ht.sees (((h₂.trans h₃).trans h₄).trans h₅))
  split
  · split
    · exact .addBase (hbase _ rfl)
    · exact .pure trivial
  · exact .pure trivial

/-- A parameter gets its constraint last, and until then no search passes through it. -/
theorem parameterType_safe (s : SymbolId) : Safe c p c.Sees (parameterType src ask s) := by
  refine .read_bind fun hp _ => ?_
  let info : TypeInfo := { kind := .param, name := (p.symbol s).name, symbol := some s }
  have hnew : Safe c p (New c info p) (newType info : Query src [] TypeId) :=
    .newType (fun _ => ⟨nofun, nofun, nofun, nofun, nofun⟩) fun _ => nofun
  obtain ⟨h₁, hp₁, ht⟩ := hnew hp
  obtain ⟨h₂, h₁₂, -⟩ := @setDeclaredType_safe src c _ s _ ht.seen h₁
  generalize (do
    let decl ← (p.symbol s).decls.head?
    let parent ← src.parent decl
    let clause ← src.child? parent "constraint"
    src.firstNamed? clause) = constraint?
  cases constraint? with
  | none => exact ⟨h₂, hp₁.trans h₁₂, ht.sees h₁₂⟩
  | some inner =>
    obtain ⟨h₃, h₂₃, -⟩ := meaning_safe h hl (some inner) h₂
    have h₁₃ := h₁₂.trans h₂₃
    have hkind := ht.kind_eq h₁₃
    have hfree := ((h₁₃.types _ ht.seen.1).seen (by rw [ht.typeInfo_eq]; exact nofun)
      (by rw [ht.typeInfo_eq]; exact nofun)).2.2.1.trans (congrArg TypeInfo.constraint ht.typeInfo_eq)
    exact ⟨h₃.constrain hkind hfree, Sound.retains_modify_new (hp₁.trans h₁₃) ht.size_le,
      (ht.sees h₁₃).1.trans_eq (Array.size_modify ..).symm, (ht.sees h₁₃).2⟩

end

theorem aliasType_safe (hl : 1 < l) (s : SymbolId) : Safe c p c.Sees (aliasType src ask s) := by
  refine .read_bind fun _ => ?_
  dsimp only
  split
  · exact unknown_safe
  · split
    · exact unknown_safe
    · refine .bind (meaning_safe h (by omega) _) fun q t _ ht => .read_bind fun _ => ?_
      split
      · refine .bind (.updateType_aside (fun _ => ⟨rfl, rfl, rfl, rfl, rfl, rfl, rfl⟩) fun _ _ => nofun)
          fun q₁ _ h₁ _ => .read_bind fun _ => .bind (.forM fun tp r _ => ?_) fun q₂ _ h₂ _ =>
          .pure (ht.retained (h₁.trans h₂))
        exact .bind (declaredBy_safe h hl _) fun _ _ _ _ =>
          .updateType_aside (fun _ => ⟨rfl, rfl, rfl, rfl, rfl, rfl, rfl⟩) fun _ => id
      · exact .pure ht

/-- Only symbols that were there before stand for others. -/
theorem declaredType_safe (s : SymbolId) (hl : 0 < l) (hold : s.idx < c.symbols → 1 < l) :
    Safe c p c.SeesAll (declaredType src ask s) := by
  refine .read_bind fun hp => ?_
  have hlead {x : Trait} (hx : Traits.leading.has x = true) (hs : (p.symbol s).has x = true) :
      1 < l := by
    refine hold (not_le.mp fun hnew => ?_)
    rw [Symbol.has, Traits.has_eq_false (hp.fresh s hnew) hx] at hs
    exact Bool.false_ne_true hs
  split
  · next halias =>
    have hl : 1 < l := by
      rcases Bool.or_eq_true_iff.mp halias with halias | halias
      · exact hlead (by decide) halias
      · exact hlead (by decide) halias
    refine .bind (resolveAlias_safe s) fun q target? _ _ => ?_
    split
    · exact .pure Scene.seesAll_none
    · refine .bind (declaredBy_safe h hl _) fun r t? _ ht => ?_
      split
      · exact .pure Scene.seesAll_none
      · exact .bind (setDeclaredType_safe s (ht _ rfl)) fun _ _ hend _ => .pure (ht.retained hend)
  split
  · exact .some (nominalType_safe h hl s)
  split
  · next halias =>
    exact .bind (aliasType_safe h (hlead (by decide) halias) s) fun _ _ _ ht =>
      .bind (setDeclaredType_safe s ht) fun _ _ hend _ =>
      .pure (Scene.seesAll_some (ht.retained hend))
  split
  · exact .bind (objectType_safe _ _) fun _ _ _ ht =>
      .bind (setDeclaredType_safe s ht.seen) fun _ _ hend _ =>
      .pure (Scene.seesAll_some (ht.sees hend))
  split
  · refine .bind (objectType_safe _ _) fun q t _ ht =>
      .bind (setDeclaredType_safe s ht.seen) fun q₁ _ h₁ _ => ?_
    split
    · exact .bind (callSignatures_safe h hl _) fun q₂ sigs h₂ hsigs =>
        .bind (.setSignatures (ht.kind_eq (h₁.trans h₂)) hsigs) fun _ _ hend _ =>
        .pure (Scene.seesAll_some (ht.sees ((h₁.trans h₂).trans hend)))
    · exact .pure (Scene.seesAll_some (ht.sees h₁))
  split
  · exact .some (parameterType_safe h hl s)
  · exact .pure Scene.seesAll_none

/-! ### Values -/

theorem classSideType_safe (hl : 1 < l) (s : SymbolId) :
    Safe c p c.Sees (classSideType src ask s) := by
  refine .read_bind fun _ => .bind (objectType_safe _ _) fun q₁ t _ ht =>
    .bind (known_safe h (level_declaredBy_le.trans_lt hl)) fun q₂ inst h₂ hinst =>
    .bind (.setInstance hinst) fun q₃ _ h₃ _ =>
    .bind (.forM fun clause q _ => ?_) fun q₄ _ h₄ _ => .read_bind fun _ => ?_
  · refine .bind (expression_safe h (by omega) _) fun r base _ hbase => .read_bind fun _ => ?_
    split
    · exact .addBase hbase
    · exact .pure trivial
  · have h₂₄ := (h₂.trans h₃).trans h₄
    split
    · refine .bind (signatureOf_safe h (by omega) _) fun q₅ sig h₅ _ => ?_
      have hinst := hinst.retained ((h₃.trans h₄).trans h₅)
      exact .bind (.setSignatures (ht.kind_eq (h₂₄.trans h₅)) (List.forall_mem_singleton.mpr hinst))
        fun _ _ hend _ => .pure (ht.sees ((h₂₄.trans h₅).trans hend))
    · exact .pure (ht.sees h₂₄)

theorem declarationType_safe (hl : 1 < l) (n : NodeId) :
    Safe c p c.Sees (declarationType src ask n) := by
  have hmeaning (n? : Option NodeId) : Safe c p c.Sees (ask.meaning n?) := meaning_safe h (by omega) _
  have hexpression (n? : Option NodeId) : Safe c p c.Sees (ask.expression n?) :=
    expression_safe h (by omega) _
  unfold declarationType
  split
  · exact unknown_safe
  · next parent _ =>
    have hotherwise : Safe c p c.Sees (if src.isKind n ["object", "arrow_function",
        "function_expression", "function", "class"] then ask.expression (some n)
        else ask.known (.position n)) := by
      split
      · exact hexpression _
      · exact known_safe h (show 0 < l by omega)
    dsimp only
    split
    iterate 3
      split
      · exact hmeaning _
      · exact hexpression _
      · exact unknown_safe
    iterate 3
      split
      · exact known_safe h (show 1 < l from hl)
      · exact hotherwise
    · split
      · split
        · exact hexpression _
        · exact hotherwise
      · exact hotherwise
    · split
      · refine .read_bind fun hp => valueOf_safe_of_level h fun s hs => ?_
        rw [level_valueOf_of_lt (hp.referenced n s hs)]
        omega
      · exact hotherwise
    iterate 2 exact intrinsic_safe _
    · exact hexpression _
    · exact unknown_safe
    · exact hotherwise

/-- Only symbols that were there before stand for others. -/
theorem valueType_safe (s : SymbolId) (hl : 1 < l) (hold : s.idx < c.symbols → 2 < l) :
    Safe c p c.Sees (valueType src ask s) := by
  refine .read_bind fun hp => ?_
  split
  · next halias =>
    have hl : 2 < l := by
      refine hold (not_le.mp fun hnew => ?_)
      rw [Symbol.isAlias, Traits.meets_aliasing_eq_false (hp.fresh s hnew)] at halias
      exact nomatch halias
    refine .bind (resolveAlias_safe s) fun q target? _ _ => ?_
    split
    · exact valueOf_safe h hl _
    · exact unknown_safe
  split
  · exact .imp (objectType_safe _ _) fun _ _ ht => ht.seen
  split
  · exact classSideType_safe h hl s
  split
  · exact known_safe h (level_declaredBy_le.trans_lt hl)
  split
  · exact intrinsic_safe _
  split
  · exact functionTypeOfSymbol_safe h hl s
  split
  · split
    · exact declarationType_safe h hl _
    · exact unknown_safe
  · exact unknown_safe

theorem contextualParameterType_safe (hl : levels src ≤ l) (param : NodeId) :
    Safe c p c.Sees (contextualParameterType src ask param) := by
  have hleast : 2 < l := two_lt_of_levels_le hl
  unfold contextualParameterType
  dsimp only
  split
  · exact unknown_safe
  · refine .bind (h _ ((level_lt_levels _).trans_le hl) p) fun q expected? _ _ =>
      .bind (firstSignature?_safe _) fun r sig? _ _ => ?_
    split
    · exact valueOf_safe h hleast _
    · exact unknown_safe

theorem patternPropertyType_safe (hl : 2 < l) (pattern : NodeId) (name? : Option String) :
    Safe c p c.Sees (patternPropertyType src ask pattern name?) := by
  unfold patternPropertyType
  split
  · exact unknown_safe
  · exact .bind (known_safe h (show 0 < l by omega)) fun _ _ _ _ => typeOfProperty_safe h hl _ _

theorem positionType_safe (hl : levels src ≤ l) (n : NodeId) :
    Safe c p c.Sees (positionType src ask n) := by
  have hleast : 2 < l := two_lt_of_levels_le hl
  have hmeaning (n? : Option NodeId) : Safe c p c.Sees (ask.meaning n?) := meaning_safe h (by omega) _
  have hexpression (n? : Option NodeId) : Safe c p c.Sees (ask.expression n?) :=
    expression_safe h (by omega) _
  have hposition (n : NodeId) : Safe c p c.Sees (ask.known (.position n)) :=
    known_safe h (show 0 < l by omega)
  unfold positionType
  split
  · exact unknown_safe
  · split
    · split
      · exact unknown_safe
      · split
        · exact hmeaning _
        · exact hexpression _
        · exact unknown_safe
    iterate 2
      split
      · exact hmeaning _
      · exact hexpression _
      · exact contextualParameterType_safe h hl _
    · exact contextualParameterType_safe h hl _
    · split
      · exact contextualParameterType_safe h hl _
      · exact unknown_safe
    · exact patternPropertyType_safe h hleast _ _
    · split
      · split
        · exact patternPropertyType_safe h hleast _ _
        · exact unknown_safe
      · exact unknown_safe
    · split
      · split
        · exact patternPropertyType_safe h hleast _ _
        · exact hposition _
      · exact hposition _
    iterate 2 exact hposition _
    · exact .bind (hposition _) fun _ _ _ _ => elementType_safe _ _
    · split
      · split
        · exact .bind (hexpression _) fun _ _ _ _ => elementType_safe _ _
        · exact intrinsic_safe _
      · exact intrinsic_safe _
    · exact unknown_safe

end Typing
end
end Moniker
