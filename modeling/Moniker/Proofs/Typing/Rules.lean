/-
# Rules leave nothing open

Every rule rests if the questions it asks do.  Four rules link names: member access,
access by index, `T["key"]` and dotted type names.  A fifth, the rule for object
literals, declares names as well.  They rest too, but they keep the index only where
there is nothing to keep, `¬ w.linked`.
-/

import Moniker.Proofs.Typing.Memory

namespace Moniker

open Program (Rested recalled?_remember_of_ne)
open Typing (Watch Memo)

namespace Query

variable {src : Source} {own : List LiteralShape} {w : Watch}

/-! ### What rules are made of -/

/-- A new type is none of those that stay. -/
theorem Rests.newType {β : Type} {f : TypeId → Query src own β} (info : TypeInfo)
    (h : ∀ t : TypeId, (w.linked → w.types ≤ t.idx) → Rests w (f t)) :
    Rests w (Query.newType info >>= f) := by
  intro p hp
  have hpushed : Rested w p { p with types := p.types.push info } := by
    refine .of_types (Nat.le_of_lt (by simp)) fun hw t ht => ?_
    rw [getD_push, if_neg (ht.trans_le (hp hw).2).ne]
    exact .refl _
  exact hpushed.trans (h ⟨p.types.size⟩ (fun hw => (hp hw).2) _ (hpushed.ready hp))

theorem newType_rests (info : TypeInfo) : Rests w (newType info : Query src own TypeId) :=
  .newType info fun t _ => .pure t

theorem updateType_rests {t : TypeId} {f : TypeInfo → TypeInfo} (ht : w.linked → w.types ≤ t.idx) :
    Rests w (updateType t f : Query src own Unit) := by
  intro p _
  refine .of_types (by simp) fun hw u hu => ?_
  rw [getD_modify, if_neg fun heq => (hu.trans_le (ht hw)).ne heq.1.symm]
  exact .refl _

/-- An alias may give its name to any type. -/
theorem updateType_kept {t : TypeId} {f : TypeInfo → TypeInfo} (hf : ∀ x : TypeInfo, x.Kept (f x)) :
    Rests w (updateType t f : Query src own Unit) := by
  intro p _
  refine .of_types (by simp) fun _ u _ => ?_
  rw [getD_modify]
  split
  · exact hf _
  · exact .refl _

/-- The type that is remembered, or else one that is made. -/
def memoized (x : Memo) (make : Query src own TypeId) : Query src own TypeId := do
  match ← Query.read fun p => p.recalled? x with
  | some t => return t
  | none => make

theorem run_memoized {x : Memo} {make : Query src own TypeId} (p : Program) :
    (memoized x make).run p = ((p.recalled? x).elim make pure).run p := by
  change Query.run (match p.recalled? x with
    | some t => pure t
    | none => make) p = _
  cases p.recalled? x <;> rfl

theorem memoized_rests {x : Memo} {make : Query src own TypeId} (hmake : make.Rests (w.except x)) :
    Rests w (memoized x make) := by
  intro p hp
  rw [run_memoized]
  cases hfind : p.recalled? x with
  | some t => exact .refl p
  | none => exact (hmake p hp).of_except hfind

theorem intrinsic_eq_memoized (name : String) :
    (intrinsic name : Query src own TypeId) = memoized (.intrinsic name) (do
      let t ← newType { kind := .intrinsic, name := name }
      learn fun p => { p with intrinsics := p.intrinsics.insert name t }
      return t) := rfl

theorem intrinsic_rests (name : String) : Rests w (intrinsic name : Query src own TypeId) := by
  rw [intrinsic_eq_memoized]
  exact memoized_rests <| .newType _ fun t _ =>
    .bind (fun _ _ => .remember (x := .intrinsic name) t) fun _ => .pure _

theorem unknown_rests : Rests w (unknown : Query src own TypeId) := intrinsic_rests _

theorem objectType_rests (symbol : Option SymbolId) (members : Option TableId) :
    Rests w (objectType symbol members : Query src own TypeId) := newType_rests _

theorem foreign_rests (label : String) (args : List TypeId) :
    Rests w (foreign label args : Query src own TypeId) := newType_rests _

theorem composite_rests (kind : TypeKind) (parts : List TypeId) :
    Rests w (composite kind parts : Query src own TypeId) := by
  refine .bind (.read _) fun flat => ?_
  split
  · exact unknown_rests
  · exact .pure _
  · exact newType_rests _

theorem elementType_rests (t : TypeId) (index : Option Nat) :
    Rests w (elementType t index : Query src own TypeId) := by
  refine .bind (.read _) fun info => ?_
  split
  · exact .pure _
  · split
    · exact .pure _
    · exact composite_rests _ _
  · split
    · split
      · exact .pure _
      · exact unknown_rests
    · exact unknown_rests
  · exact unknown_rests

theorem cutOff_rests : Rests w (cutOff : Query src own Unit) := .learn fun _ => rfl

theorem runOn_rests : Rests w (runOn : Query src own Unit) := .learn fun _ => rfl

theorem firstSignature?_rests (t? : Option TypeId) :
    Rests w (firstSignature? t? : Query src own (Option Signature)) := by
  cases t? with
  | none => exact .pure _
  | some t =>
    refine .bind (.read _) fun found? => ?_
    split
    · exact .pure _
    · exact .bind runOn_rests fun _ => .pure _

theorem newSymbol_rests (sym : Symbol) (h : sym.scope = none) :
    Rests w (newSymbol sym h : Query src own SymbolId) := by
  intro p _
  refine .of_symbols rfl rfl rfl rfl rfl ⟨le_rfl, fun _ _ => rfl⟩
    (Nat.le_of_lt (by simp [newSymbol])) fun s hs => ?_
  have hsymbol : (p.addSymbol sym).symbol s = p.symbol s :=
    (Program.symbol_addSymbol s).trans (if_neg hs.ne)
  exact ⟨congrArg Symbol.decls hsymbol, congrArg Symbol.traits hsymbol⟩

theorem setMembersOnce_rests (s : SymbolId) (tbl : Program → MemberTable)
    (h : ∀ p, ∀ e ∈ (tbl p).entries, ∃ m, e ∈ (p.moduleInfo m).exports) :
    Rests w (setMembersOnce s tbl h : Query src own Unit) := by
  intro p _
  unfold setMembersOnce
  dsimp only
  split
  · exact .refl p
  · have htable : Rested w p (p.addTable (tbl p)) := by
      refine .of_symbols rfl rfl rfl rfl rfl ⟨Nat.le_of_lt (by simp), fun t ht => ?_⟩ le_rfl
        fun _ _ => ⟨rfl, rfl⟩
      rw [Program.table_addTable, if_neg ht.ne]
    exact htable.trans (.modifySymbol fun _ => ⟨rfl, rfl⟩)

theorem setTarget_rests (s : SymbolId) (next? : Option SymbolId) :
    Rests w (setTarget s next? : Query src own Unit) := fun _ _ => .modifySymbol fun _ => ⟨rfl, rfl⟩

theorem setShapeAt_rests (hw : ¬ w.linked) (n : NodeId) (s : SymbolId) :
    Rests w (setShapeAt n s : Query src own Unit) := fun _ _ => .of_unlinked hw rfl le_rfl

theorem addEffect_rests (n : NodeId) : Rests w (addEffect n : Query src own Unit) :=
  fun _ _ => .of_symbols rfl rfl rfl rfl rfl ⟨le_rfl, fun _ _ => rfl⟩ le_rfl fun _ _ => ⟨rfl, rfl⟩

theorem withShape_rests {α : Type} (hw : ¬ w.linked) (shape : Symbol) {h : shape.scope = none}
    {hliteral : shape.isObjectLiteral = true}
    {body : (o : LiteralShape) → Query src (o :: own) α} (hbody : ∀ o, (body o).Rests w) :
    Rests w (withShape shape body h hliteral) := by
  intro p hp
  have hshape : Rested w p
      ((p.addTable {}).addSymbol { shape with members := some ⟨p.tables.size⟩ }) :=
    .of_unlinked hw rfl (by simp [Program.addTable])
  exact hshape.trans (hbody _ _ (hshape.ready hp))

/-! ### Aliases -/

theorem stepAlias_rests (s : SymbolId) :
    Rests w (stepAlias s : Query src [] (Option SymbolId)) := by
  refine .bind (.read _) fun sym => ?_
  dsimp only
  split
  · refine .bind (.read _) fun m? => ?_
    split
    · exact .bind (.bind (.read _) fun _ => setMembersOnce_rests _ _ _) fun _ => .read _
    · exact .read _
  · exact .read _

/-- The rest of the way after a step from an alias. -/
theorem onward_rests {follow : SymbolId → Query src [] (Option SymbolId)}
    (h : ∀ s, Rests w (follow s)) (next? : Option SymbolId) : Rests w (match next? with
      | some next => follow next
      | none => Pure.pure none) := by
  cases next? with
  | none => exact .pure _
  | some next => exact h next

theorem followAlias_rests (fuel : Nat) (s : SymbolId) :
    Rests w (followAlias fuel s : Query src [] (Option SymbolId)) := by
  induction fuel generalizing s with
  | zero => exact .pure _
  | succ fuel ih =>
    have hrest := onward_rests ih
    refine .bind (.read _) fun sym => ?_
    split
    · exact .pure _
    · dsimp only
      split
      · exact hrest _
      · exact .bind (stepAlias_rests s) fun _ => .bind (setTarget_rests s _) fun _ => hrest _

theorem resolveAlias_rests (s : SymbolId) :
    Rests w (resolveAlias s : Query src [] (Option SymbolId)) := followAlias_rests _ _

end Query

open Query (Rests)

section

variable {src : Source} {ask : Ask src} {w : Watch} (h : ∀ q, (ask q).Rests w)
include h

/-! ### Questions -/

namespace Ask

theorem known_rests (q : Question) : Rests w (ask.known q) := by
  refine .bind (h q) fun t? => ?_
  split
  · exact .pure _
  · exact Query.unknown_rests

theorem valueOf_rests (s? : Option SymbolId) : Rests w (ask.valueOf s?) := by
  cases s? with
  | none => exact Query.unknown_rests
  | some s => exact known_rests h _

theorem declaredBy_rests (s? : Option SymbolId) : Rests w (ask.declaredBy s?) := by
  cases s? with
  | none => exact .pure _
  | some s => exact h _

theorem meaning_rests (n? : Option NodeId) : Rests w (ask.meaning n?) := by
  cases n? with
  | none => exact Query.unknown_rests
  | some n => exact known_rests h _

theorem expression_rests (n? : Option NodeId) : Rests w (ask.expression n?) := by
  cases n? with
  | none => exact Query.unknown_rests
  | some n => exact known_rests h _

end Ask

namespace Typing

open Query Ask

theorem typeOfProperty_rests (t : TypeId) (name : String) : Rests w (typeOfProperty ask t name) :=
  .bind (.read _) fun _ => valueOf_rests h _

/-! ### Signatures -/

theorem inferResult_rests (fn : NodeId) : Rests w (inferResult src ask fn) := by
  unfold inferResult
  split
  · exact intrinsic_rests _
  · split
    · exact expression_rests h _
    · refine .bind (.mapM fun _ _ => expression_rests h _) fun results => ?_
      split
      · exact intrinsic_rests _
      · exact composite_rests _ _

omit h in
theorem parameterSymbol_rests (fn pattern : NodeId) :
    Rests w (parameterSymbol src fn pattern) := by
  refine .bind (.read _) fun s? => ?_
  split
  · exact .pure _
  · exact newSymbol_rests _ _

omit h in
theorem parametersOf_rests (fn : NodeId) : Rests w (parametersOf src fn) := by
  refine .bind (.read _) fun single => ?_
  split
  · exact .pure _
  · exact .bind (.mapM fun _ _ => parameterSymbol_rests fn _) fun _ => .pure _

theorem signatureOf_rests (fn : NodeId) : Rests w (signatureOf src ask fn) := by
  refine .bind (.read _) fun _ => .bind (parametersOf_rests fn) fun _ => ?_
  dsimp only
  split
  · exact .bind (meaning_rests h _) fun _ => .pure _
  · split
    · exact .bind unknown_rests fun _ => .pure _
    · exact .bind (inferResult_rests h fn) fun _ => .pure _

omit h in
theorem functionType_eq_memoized (fn : NodeId) :
    functionType src ask fn = memoized (.function fn) (do
      let owner ← Query.read fun p => (src.child? fn "name").bind fun n => p.declared[n]?
      let t ← Query.objectType owner none
      Query.learn fun p => { p with functionTypes := p.functionTypes.insert fn t }
      let sig ← signatureOf src ask fn
      Query.updateType t fun info => { info with signatures := [sig] }
      return t) := rfl

omit h in
theorem functionType_rests (h : ∀ w q, (ask q).Rests w) (fn : NodeId) :
    Rests w (functionType src ask fn) := by
  rw [functionType_eq_memoized]
  exact memoized_rests <| .bind (.read _) fun _ => .newType _ fun t ht =>
    .bind (fun _ _ => .remember (x := .function fn) t) fun _ =>
      .bind (signatureOf_rests (h _) fn) fun _ => .bind (updateType_rests ht) fun _ => .pure _

theorem callSignatures_rests (body : NodeId) : Rests w (callSignatures src ask body) :=
  .mapM fun _ _ => signatureOf_rests h _

theorem interfaceSignatures_rests (sym : Symbol) : Rests w (interfaceSignatures src ask sym) :=
  .bind (.mapM fun _ _ => callSignatures_rests h _) fun _ => .pure _

theorem functionTypeOfSymbol_rests (s : SymbolId) : Rests w (functionTypeOfSymbol src ask s) := by
  refine .bind (.read _) fun sym => ?_
  dsimp only
  split
  · exact known_rests h _
  · exact .newType _ fun t ht => .bind (.mapM fun _ _ => signatureOf_rests h _) fun _ =>
      .bind (updateType_rests ht) fun _ => .pure _

/-! ### Type expressions -/

theorem instantiate_rests (s : SymbolId) (args : List TypeId) :
    Rests w (instantiate src ask s args) := by
  refine .bind (declaredBy_rests h _) fun base? => ?_
  split
  · exact .pure _
  · refine .bind (.read _) fun info => ?_
    split
    · exact .pure _
    · exact .bind (newType_rests _) fun _ => .pure _

omit h in
/-- Linking a name keeps the index where there is nothing to keep. -/
theorem linkMember_rests {own : List LiteralShape} (hw : ¬ w.linked) {n : NodeId} {name : String}
    {find : Program → Option SymbolId} {hn : src.IsMemberUse n} {hname : src.Spells n name}
    {hfind : ∀ p m, find p = some m → p.Lists name m} :
    Rests w (linkMember n name find hn hname hfind : Query src own (Option SymbolId)) := by
  intro p _
  unfold linkMember
  dsimp only
  split
  · exact .refl p
  · dsimp only
    split
    · exact .refl p
    · exact .of_unlinked hw rfl le_rfl

/-- The end of a qualified type, once the member it names has been looked up. -/
theorem qualifiedMember_rests (n : NodeId) (member? : Option SymbolId) :
    Rests w (match member? with
      | none => (foreign (src.text n) [] : Query src [] TypeId)
      | some member => ask.known (.declaredBy member)) := by
  cases member? with
  | none => exact foreign_rests _ _
  | some member => exact known_rests h _

theorem qualifiedType_rests (hw : ¬ w.linked) (n : NodeId)
    (hn : src.kind n = "nested_type_identifier") : Rests w (qualifiedType src ask n hn) := by
  have hrest := qualifiedMember_rests (w := w) h n
  unfold qualifiedType
  split
  · refine .bind (.read _) fun head? => ?_
    dsimp only
    split
    · exact .bind (resolveAlias_rests _) fun _ => .bind (linkMember_rests hw) hrest
    · exact .bind (.pure _) fun _ => .bind (linkMember_rests hw) hrest
  · exact unknown_rests

theorem typeArguments_rests (n : NodeId) : Rests w (typeArguments src ask n) := by
  unfold typeArguments
  split
  · exact .mapM fun _ _ => meaning_rests h _
  · exact .pure _

theorem applyType_rests (s : SymbolId) (args : List TypeId) :
    Rests w (applyType src ask s args) := by
  refine .bind (resolveAlias_rests s) fun target? => .bind (.read _) fun aliasTarget? => ?_
  split
  · exact instantiate_rests h _ _
  · refine .bind (declaredBy_rests h _) fun base? => ?_
    split
    · exact .bind unknown_rests fun _ => .pure _
    · refine .bind (.read _) fun info => ?_
      split
      · exact .pure _
      · exact .bind (.read _) fun _ => .bind (newType_rests _) fun _ => .pure _

theorem genericType_rests (n : NodeId) : Rests w (genericType src ask n) := by
  refine .bind (typeArguments_rests h n) fun args => ?_
  split
  · exact .bind (foreign_rests _ _) fun _ => .pure _
  · split
    · refine .bind (meaning_rests h _) fun base => .bind (.read _) fun s? => ?_
      split
      · exact .bind (foreign_rests _ _) fun _ => .pure _
      · exact applyType_rests h _ _
    · refine .bind (.read _) fun s? => ?_
      split
      · exact .bind (foreign_rests _ _) fun _ => .pure _
      · exact applyType_rests h _ _

/-- The end of the type of `T["key"]`, once the property has been looked up. -/
theorem lookupMember_rests (object : TypeId) (index : NodeId) (member? : Option SymbolId) :
    Rests w (match member? with
      | some m => ask.valueOf (some m)
      | none => do
        let indexType ← ask.meaning (some index)
        foreign "lookup" [object, indexType]) := by
  cases member? with
  | some m => exact valueOf_rests h _
  | none => exact .bind (meaning_rests h _) fun _ => foreign_rests _ _

theorem lookupType_rests (hw : ¬ w.linked) (n : NodeId) (hn : src.kind n = "lookup_type") :
    Rests w (lookupType src ask n hn) := by
  unfold lookupType
  split
  · next index _ _ =>
    refine .bind (meaning_rests h _) fun object => ?_
    have hrest := lookupMember_rests (w := w) h object index
    split
    · exact .bind (linkMember_rests hw) hrest
    · exact .bind (.pure _) hrest
  · exact unknown_rests

theorem thisMeaning_rests (n : NodeId) : Rests w (thisMeaning src ask n) := by
  unfold thisMeaning
  split
  · exact .bind unknown_rests fun _ => .pure _
  · refine .bind (.read _) fun cls? => ?_
    split
    · exact declaredBy_rests h _
    · split
      · exact .bind (.read _) fun _ => declaredBy_rests h _
      · exact .bind unknown_rests fun _ => .pure _

theorem tupleElement_rests (c : NodeId) : Rests w (tupleElement src ask c) := by
  unfold tupleElement
  split <;> exact meaning_rests h _

/-- Only dotted names and `T["key"]` link names. -/
theorem annotationType_rests (n : NodeId) (hn : w.linked → src.kind n ∉ linkingAnnotations) :
    Rests w (annotationType src ask n) := by
  unfold annotationType
  split
  -- Annotations and brackets mean what is in them.
  iterate 10 exact .some (meaning_rests h _)
  iterate 9 exact .some (intrinsic_rests _)
  · refine .bind (.read _) fun s? => ?_
    split
    · exact declaredBy_rests h _
    · exact .some (foreign_rests _ _)
  · next hkind =>
    exact .some (qualifiedType_rests h (fun hw => hn hw (by rw [hkind]; decide)) n hkind)
  · exact genericType_rests h n
  · refine .bind (.read _) fun shape? => ?_
    split
    · exact declaredBy_rests h _
    · exact .some unknown_rests
  iterate 2 exact .bind (.mapM fun _ _ => meaning_rests h _) fun _ => .some (composite_rests _ _)
  iterate 2 exact h _
  · exact .newType _ fun t ht => .bind (meaning_rests h _) fun _ =>
      .bind (updateType_rests ht) fun _ => .pure _
  · exact .newType _ fun t ht => .bind (.mapM fun _ _ => tupleElement_rests h _) fun _ =>
      .bind (updateType_rests ht) fun _ => .pure _
  · next hkind =>
    exact .some (lookupType_rests h (fun hw => hn hw (by rw [hkind]; decide)) n hkind)
  · exact .bind (meaning_rests h _) fun _ => .some (foreign_rests _ _)
  · split
    · exact .some (expression_rests h _)
    · exact .some unknown_rests
  · exact .bind (.mapM fun _ _ => meaning_rests h _) fun _ => .some (foreign_rests _ _)
  · split
    · exact .bind (.read _) fun _ => declaredBy_rests h _
    · exact .some unknown_rests
  iterate 2
    split
    · exact .bind (meaning_rests h _) fun _ => .some (foreign_rests _ _)
    · exact .some (meaning_rests h _)
    · exact .some (intrinsic_rests _)
  · exact thisMeaning_rests h n
  · exact .some unknown_rests

/-! ### Declared types -/

omit h in
theorem setDeclaredType_rests {s : SymbolId} (hs : w.linked → ¬ w.memos (.answer (.declaredBy s)))
    (t : TypeId) : Rests w (setDeclaredType src s t) := by
  intro p _
  refine .of_facts rfl (fun _ h => h) (fun _ h => h) (fun _ => rfl) le_rfl
    (fun hw x hx u hu => ?_) fun _ u _ => .refl _
  have hne : x ≠ .answer (.declaredBy s) := fun heq => hs hw (heq ▸ hx)
  exact (recalled?_remember_of_ne t hne).trans hu

theorem heritageType?_rests (clause : NodeId) : Rests w (heritageType? src ask clause) := by
  unfold heritageType?
  split
  · exact .some (meaning_rests h _)
  · refine .bind (expression_rests h _) fun side => .bind (.read _) fun info => ?_
    split
    · exact .pure _
    · exact .pure _

theorem addBases_rests {t : TypeId} (ht : w.linked → w.types ≤ t.idx) (clauses : List NodeId) :
    Rests w (clauses.forM fun clause => do
      match ← heritageType? src ask clause with
      | some base =>
        if base != t then
          Query.updateType t fun info => { info with bases := info.bases ++ [base] }
      | none => pure ()) := by
  refine .forM fun clause _ => .bind (heritageType?_rests h clause) fun base? => ?_
  split
  · split
    · exact updateType_rests ht
    · exact .pure _
  · exact .pure _

theorem nominalType_rests {s : SymbolId} (hs : w.linked → ¬ w.memos (.answer (.declaredBy s))) :
    Rests w (nominalType src ask s) :=
  .bind (.read _) fun _ => .newType _ fun _ ht => .bind (setDeclaredType_rests hs _) fun _ =>
    .bind (interfaceSignatures_rests h _) fun _ => .bind (updateType_rests ht) fun _ =>
      .bind (addBases_rests h ht _) fun _ => .pure _

theorem aliasType_rests (s : SymbolId) : Rests w (aliasType src ask s) := by
  refine .bind (.read _) fun sym => ?_
  split
  · exact unknown_rests
  · next decl _ =>
    split
    · exact unknown_rests
    · refine .bind (meaning_rests h _) fun t p hp => ?_
      -- Whether the type has a name already is asked of the program as it stands.
      have hread : ∀ more, ((Query.read fun p => p.typeInfo t) >>= more : Query src [] TypeId).run p =
          (more (p.typeInfo t)).run p := fun _ => rfl
      rw [hread]
      split
      · next hfree =>
        have hnone : (p.typeInfo t).alias? = none := by
          rw [Bool.and_eq_true] at hfree
          exact Option.isNone_iff_eq_none.mp hfree.2
        let named : Program :=
          { p with types := p.types.modify t.idx fun info => { info with alias? := some s } }
        have hnamed : Rested w p named := by
          refine .of_types (by simp) fun _ u _ => ?_
          rw [getD_modify]
          split
          · next heq =>
            have hu : t = u := congrArg TypeId.mk heq.1
            exact ⟨rfl, fun hne => absurd (hu ▸ hnone) hne⟩
          · exact .refl _
        have hrest : Rests w (do
            let params ← Query.read fun p => typeParametersOf src p decl
            params.forM fun tp => do
              let arg ← ask.declaredBy (some tp)
              Query.updateType t fun info => { info with aliasArgs := info.aliasArgs ++ [arg] }
            return t) :=
          .bind (.read _) fun params => .bind (.forM fun tp _ => .bind (declaredBy_rests h _)
            fun _ => updateType_kept fun _ => ⟨rfl, fun _ => rfl⟩) fun _ => .pure _
        exact hnamed.trans (hrest _ (hnamed.ready hp))
      · exact .refl p

theorem parameterType_rests {s : SymbolId} (hs : w.linked → ¬ w.memos (.answer (.declaredBy s))) :
    Rests w (parameterType src ask s) := by
  refine .bind (.read _) fun sym => .newType _ fun t ht =>
    .bind (setDeclaredType_rests hs _) fun _ => ?_
  dsimp only
  split
  · exact .bind (meaning_rests h _) fun _ => .bind (updateType_rests ht) fun _ => .pure _
  · exact .pure _

/-- A rule tells what its symbol declares, and nothing else. -/
theorem declaredType_rests {s : SymbolId} (hs : w.linked → ¬ w.memos (.answer (.declaredBy s))) :
    Rests w (declaredType src ask s) := by
  refine .bind (.read _) fun sym => ?_
  split
  · refine .bind (resolveAlias_rests s) fun target? => ?_
    split
    · exact .pure _
    · refine .bind (declaredBy_rests h _) fun t? => ?_
      split
      · exact .pure _
      · exact .bind (setDeclaredType_rests hs _) fun _ => .pure _
  split
  · exact .some (nominalType_rests h hs)
  split
  · exact .bind (aliasType_rests h s) fun _ => .bind (setDeclaredType_rests hs _) fun _ => .pure _
  split
  · exact .bind (objectType_rests _ _) fun _ => .bind (setDeclaredType_rests hs _) fun _ => .pure _
  split
  · refine .newType _ fun t ht => .bind (setDeclaredType_rests hs _) fun _ => ?_
    split
    · exact .bind (callSignatures_rests h _) fun _ => .bind (updateType_rests ht) fun _ => .pure _
    · exact .pure _
  split
  · exact .some (parameterType_rests h hs)
  · exact .pure _

/-! ### Values -/

theorem classSideType_rests (s : SymbolId) : Rests w (classSideType src ask s) := by
  refine .bind (.read _) fun sym => .newType _ fun t ht =>
    .bind (known_rests h _) fun inst => .bind (updateType_rests ht) fun _ =>
    .bind (.forM fun clause _ => ?_) fun _ => .bind (.read _) fun ctor? => ?_
  · refine .bind (expression_rests h _) fun base => .bind (.read _) fun _ => ?_
    split
    · exact updateType_rests ht
    · exact .pure _
  · split
    · exact .bind (signatureOf_rests h _) fun _ => .bind (updateType_rests ht) fun _ => .pure _
    · exact .pure _

theorem declarationType_rests (n : NodeId) : Rests w (declarationType src ask n) := by
  unfold declarationType
  split
  · exact unknown_rests
  · next parent _ =>
    have hotherwise : Rests w (if src.isKind n ["object", "arrow_function", "function_expression",
        "function", "class"] then ask.expression (some n) else ask.known (.position n)) := by
      split
      · exact expression_rests h _
      · exact known_rests h _
    dsimp only
    split
    iterate 3
      split
      · exact meaning_rests h _
      · exact expression_rests h _
      · exact unknown_rests
    iterate 3
      split
      · exact known_rests h _
      · exact hotherwise
    · split
      · split
        · exact expression_rests h _
        · exact hotherwise
      · exact hotherwise
    · split
      · exact .bind (.read _) fun _ => valueOf_rests h _
      · exact hotherwise
    iterate 2 exact intrinsic_rests _
    · exact expression_rests h _
    · exact unknown_rests
    · exact hotherwise

theorem valueType_rests (s : SymbolId) : Rests w (valueType src ask s) := by
  refine .bind (.read _) fun sym => ?_
  split
  · refine .bind (resolveAlias_rests s) fun target? => ?_
    split
    · exact valueOf_rests h _
    · exact unknown_rests
  split
  · exact objectType_rests _ _
  split
  · exact classSideType_rests h s
  split
  · exact known_rests h _
  split
  · exact intrinsic_rests _
  split
  · exact functionTypeOfSymbol_rests h s
  split
  · split
    · exact declarationType_rests h _
    · exact unknown_rests
  · exact unknown_rests

theorem contextualParameterType_rests (param : NodeId) :
    Rests w (contextualParameterType src ask param) := by
  unfold contextualParameterType
  dsimp only
  split
  · exact unknown_rests
  · refine .bind (h _) fun expected? => .bind (firstSignature?_rests _) fun sig? => ?_
    split
    · exact valueOf_rests h _
    · exact unknown_rests

theorem patternPropertyType_rests (pattern : NodeId) (name? : Option String) :
    Rests w (patternPropertyType src ask pattern name?) := by
  unfold patternPropertyType
  split
  · exact unknown_rests
  · exact .bind (known_rests h _) fun _ => typeOfProperty_rests h _ _

theorem positionType_rests (n : NodeId) : Rests w (positionType src ask n) := by
  unfold positionType
  split
  · exact unknown_rests
  · split
    · split
      · exact unknown_rests
      · split
        · exact meaning_rests h _
        · exact expression_rests h _
        · exact unknown_rests
    iterate 2
      split
      · exact meaning_rests h _
      · exact expression_rests h _
      · exact contextualParameterType_rests h _
    · exact contextualParameterType_rests h _
    · split
      · exact contextualParameterType_rests h _
      · exact unknown_rests
    · exact patternPropertyType_rests h _ _
    · split
      · split
        · exact patternPropertyType_rests h _ _
        · exact unknown_rests
      · exact unknown_rests
    · split
      · split
        · exact patternPropertyType_rests h _ _
        · exact known_rests h _
      · exact known_rests h _
    iterate 2 exact known_rests h _
    · exact .bind (known_rests h _) fun _ => elementType_rests _ _
    · split
      · split
        · exact .bind (expression_rests h _) fun _ => elementType_rests _ _
        · exact intrinsic_rests _
      · exact intrinsic_rests _
    · exact unknown_rests

/-! ### Expected types -/

theorem returnContext_rests (fn : NodeId) : Rests w (returnContext src ask fn) := by
  unfold returnContext
  split
  · exact .some (meaning_rests h _)
  · split
    · exact .bind (h _) fun _ => .bind (firstSignature?_rests _) fun _ => .pure _
    · exact .pure _

theorem argumentContext_rests (n args : NodeId) : Rests w (argumentContext src ask n args) := by
  unfold argumentContext
  dsimp only
  split
  · exact .pure _
  · refine .bind (expression_rests h _) fun t => .bind (firstSignature?_rests _) fun sig? => ?_
    split
    · exact .some (valueOf_rests h _)
    · exact .pure _

theorem pairContext_rests (n pair : NodeId) : Rests w (pairContext src ask n pair) := by
  unfold pairContext
  split
  · exact .pure _
  · split
    · exact .pure _
    · refine .bind (h _) fun expected? => .bind (.read _) fun m? => ?_
      split
      · exact .some (valueOf_rests h _)
      · exact .pure _

theorem annotationContext_rests (n parent : NodeId) :
    Rests w (annotationContext src ask n parent) := by
  unfold annotationContext
  split
  · split
    · exact .some (meaning_rests h _)
    · exact .pure _
  · exact .pure _

theorem contextType_rests (n : NodeId) : Rests w (contextType src ask n) := by
  unfold contextType
  split
  · exact .pure _
  · split
    iterate 2 exact h _
    iterate 5 exact annotationContext_rests h _ _
    · split
      · exact returnContext_rests h _
      · exact .pure _
    · split
      · exact returnContext_rests h _
      · exact .pure _
    · exact argumentContext_rests h _ _
    · exact pairContext_rests h _ _
    · refine .bind (h _) fun t? => ?_
      split
      · exact .some (elementType_rests _ _)
      · exact .pure _
    · split
      · exact .some (expression_rests h _)
      · exact .pure _
    iterate 2
      split
      · split
        · exact .some (meaning_rests h _)
        · exact .pure _
      · exact .pure _
    · split
      · exact h _
      · exact .pure _
    · split
      · split
        · exact h _
        · exact .pure _
      · exact .pure _
    · exact .pure _

/-! ### Expressions -/

theorem checkArguments_rests (call : NodeId) : Rests w (checkArguments src ask call) := by
  unfold checkArguments
  split
  · exact .forM fun _ _ => .bind (expression_rests h _) fun _ => .pure _
  · exact .pure _

theorem memberAccess_rests (hw : ¬ w.linked) (n : NodeId) (hn : src.kind n = "member_expression") :
    Rests w (memberAccess src ask n hn) := by
  refine .bind (expression_rests h _) fun object => ?_
  split
  · exact unknown_rests
  · refine .bind (linkMember_rests hw) fun member? => ?_
    split
    · exact unknown_rests
    · exact valueOf_rests h _

theorem indexAccess_rests (hw : ¬ w.linked) (n : NodeId)
    (hn : src.kind n = "subscript_expression") : Rests w (indexAccess src ask n hn) := by
  refine .bind (expression_rests h _) fun object => ?_
  dsimp only
  split
  · refine .bind (linkMember_rests hw) fun member? => ?_
    split
    · exact valueOf_rests h _
    · exact unknown_rests
  · exact .bind (expression_rests h _) fun _ => elementType_rests _ _

theorem thisType_rests (n : NodeId) : Rests w (thisType src ask n) := by
  unfold thisType
  dsimp only
  split
  · exact .some unknown_rests
  · split
    · exact .some unknown_rests
    · split
      · exact .some (expression_rests h _)
      · refine .bind (.read _) fun cls? => ?_
        split
        · exact .some unknown_rests
        · split
          · exact .some (valueOf_rests h _)
          · exact declaredBy_rests h _

omit h in
/-- Declaring a key of a literal forgets nothing and opens nothing. -/
theorem rested_declareKey {file : FileId} {shape : SymbolId} {members : TableId} {key : NodeId}
    {trait : Trait} {name : String} (hw : ¬ w.linked) (p : Program) :
    Rested w p ((declareKey src file shape members key trait name).after p) := by
  unfold declareKey
  rw [Build.after_bind, Build.after_read, Build.value_read]
  split
  · exact .of_unlinked hw rfl Program.symbols_size_modifySymbol.ge
  · unfold Binding.declareMember
    simp only [Build.after_bind, Build.value_get, Build.after_get]
    split
    · exact .of_unlinked hw rfl Program.symbols_size_modifySymbol.ge
    · exact .of_unlinked hw rfl (Nat.le_of_lt Program.symbols_size_addSymbol.ge)

omit h in
theorem checkKey_rests {own : List LiteralShape} (hw : ¬ w.linked) (expected? : Option TypeId)
    (file : FileId) (literal : LiteralShape) (key : NodeId) (trait : Trait) (name : String)
    (hliteral : literal ∈ own) (hkey : src.IsLiteralKey key) (hname : src.Spells key name)
    (htrait : trait = .property ∨ trait = .method) :
    Rests w (checkKey src expected? file literal key trait name hliteral hkey hname htrait) := by
  refine .bind (linkMember_rests hw) fun m? => ?_
  split
  · exact .pure _
  · exact fun p _ => rested_declareKey hw p

theorem objectLiteral_rests (hw : ¬ w.linked) (n : NodeId) (hn : src.kind n = "object") :
    Rests w (objectLiteral src ask n hn) := by
  refine .bind (h _) fun context? => .bind (.read _) fun expected? => ?_
  refine withShape_rests hw _ fun literal => ?_
  refine .bind (.lift (objectType_rests _ _)) fun t => .bind (setShapeAt_rests hw _ _) fun _ =>
    .bind (fun p _ => ?_) fun _ => .bind (.forM fun c _ => ?_) fun _ => ?_
  · -- The literal is known from here on, though its keys are not linked yet.
    refine .of_facts rfl (fun m hm => ?_) (fun _ hm => hm) (fun _ => rfl) le_rfl (absurd · hw)
      (absurd · hw)
    change (p.expressionTypes.insert n t).contains m = true
    rw [Table.contains_insert, hm, Bool.or_true]
  · dsimp only
    split
    · refine .bind (.lift (expression_rests h _)) fun base => .bind (.read _) fun _ => ?_
      split
      · exact updateType_rests (absurd · hw)
      · exact .pure _
    · split
      · exact .pure _
      · split
        · exact .pure _
        · exact checkKey_rests hw _ _ _ _ _ _ _ _ _ _
  · split
    · exact .bind (updateType_rests (absurd · hw)) fun _ => .pure _
    · exact .pure _

/-- The end of a call, once the type of what is called is known. -/
theorem callResult_rests (n : NodeId) (ft? : Option TypeId) : Rests w (do
    checkArguments src ask n
    match ← firstSignature? ft? with
    | some sig => return sig.result
    | none => unknown) := by
  refine .bind (checkArguments_rests h n) fun _ => .bind (firstSignature?_rests _) fun sig? => ?_
  split
  · exact .pure _
  · exact unknown_rests

theorem callType_rests (n : NodeId) : Rests w (callType src ask n) := by
  unfold callType
  dsimp only
  split
  · exact .bind (expression_rests h _) fun ft => .bind (.pure _) (callResult_rests h n)
  · exact .bind (.pure _) (callResult_rests h n)

/-- Only accesses and object literals link names. -/
theorem expressionType_rests (n : NodeId) (hn : w.linked → src.kind n ∉ linkingExpressions) :
    Rests w (expressionType src ask n) := by
  unfold expressionType
  split
  iterate 2 exact .bind (.read _) fun _ => .some (valueOf_rests h _)
  · exact thisType_rests h n
  · next hkind =>
    exact .some (memberAccess_rests h (fun hw => hn hw (by rw [hkind]; decide)) n hkind)
  · next hkind =>
    exact .some (indexAccess_rests h (fun hw => hn hw (by rw [hkind]; decide)) n hkind)
  · exact .some (callType_rests h n)
  · refine .bind (expression_rests h _) fun side => .bind (checkArguments_rests h n) fun _ =>
      .bind (.read _) fun t? => ?_
    split
    · exact .pure _
    · exact .some unknown_rests
  · next hkind =>
    exact .some (objectLiteral_rests h (fun hw => hn hw (by rw [hkind]; decide)) n hkind)
  · refine .bind (.mapM fun _ _ => expression_rests h _) fun parts => .newType _ fun t ht => ?_
    dsimp only
    split
    · exact .bind unknown_rests fun _ => .bind (updateType_rests ht) fun _ => .pure _
    · exact .bind (composite_rests _ _) fun _ => .bind (updateType_rests ht) fun _ => .pure _
  iterate 4 exact h _
  · refine .bind (.read _) fun cls? => ?_
    split
    · exact .some (valueOf_rests h _)
    · exact .some unknown_rests
  iterate 4 exact .some (expression_rests h _)
  iterate 2
    split
    · exact .some unknown_rests
    · exact .some (expression_rests h _)
    · exact .bind (expression_rests h _) fun _ => .bind (meaning_rests h _) fun _ => .pure _
  · refine .foldlM (fun t? c => ?_) _
    split
    · exact .some (meaning_rests h _)
    · exact .bind (expression_rests h _) fun _ => .pure _
  · exact .bind (expression_rests h _) fun _ => .bind (expression_rests h _) fun _ =>
      .bind (expression_rests h _) fun _ => .some (composite_rests _ _)
  · refine .bind (expression_rests h _) fun left => .bind (expression_rests h _) fun right => ?_
    split
    · exact .some (composite_rests _ _)
    · exact .some (intrinsic_rests _)
  · exact .bind (expression_rests h _) fun _ => .some (expression_rests h _)
  · exact .bind (expression_rests h _) fun _ => .bind (expression_rests h _) fun _ =>
      .some (intrinsic_rests _)
  · exact .foldlM (fun _ _ => .some (expression_rests h _)) _
  iterate 7 exact .some (intrinsic_rests _)
  · exact .some (foreign_rests _ _)
  · exact .some unknown_rests

end Typing
end
end Moniker
