/-
# Expressions keep the graph of types sound

What is expected at a node leads outwards in the tree.  An expression may lead to any
question, and an object literal makes symbols for the keys that are not expected: members,
which lead no further.
-/

import Moniker.Proofs.Termination.Rules

namespace Moniker

open Program (Retains)
open Typing (Scene Settled Sound Memo)
open Query (Safe New anything)

section

variable {src : Source} {ask : Ask src} {c : Scene} {p : Program} {l : Nat}
  (h : ∀ q, c.level src q < l → ∀ p, Safe c p c.SeesAll (ask q))
include h

namespace Typing

open Query Ask

/-! ### Expected types -/

section

variable (hl : 2 < l)
include hl

theorem returnContext_safe {fn : NodeId} (hfn : c.level src (.context fn) < l) :
    Safe c p c.SeesAll (returnContext src ask fn) := by
  unfold returnContext
  split
  · exact .some (meaning_safe h (by omega) _)
  · split
    · refine .bind (h _ hfn p) fun q _ _ _ => .bind (firstSignature?_safe _) fun r sig? _ hsig =>
        .pure fun t ht => ?_
      obtain ⟨sig, rfl, rfl⟩ := Option.map_eq_some_iff.mp ht
      exact hsig sig rfl
    · exact .pure Scene.seesAll_none

theorem argumentContext_safe (n args : NodeId) :
    Safe c p c.SeesAll (argumentContext src ask n args) := by
  unfold argumentContext
  dsimp only
  split
  · exact .pure Scene.seesAll_none
  · refine .bind (expression_safe h (by omega) _) fun _ _ _ _ =>
      .bind (firstSignature?_safe _) fun r sig? _ _ => ?_
    split
    · exact .some (valueOf_safe h hl _)
    · exact .pure Scene.seesAll_none

theorem pairContext_safe {n pair : NodeId}
    (hobject : ∀ object, src.parent pair = some object → c.level src (.context object) < l) :
    Safe c p c.SeesAll (pairContext src ask n pair) := by
  unfold pairContext
  split
  · exact .pure Scene.seesAll_none
  · next object hparent =>
    split
    · exact .pure Scene.seesAll_none
    · refine .bind (h _ (hobject object hparent) p) fun _ _ _ _ => .read_bind fun _ => ?_
      split
      · exact .some (valueOf_safe h hl _)
      · exact .pure Scene.seesAll_none

theorem annotationContext_safe (n parent : NodeId) :
    Safe c p c.SeesAll (annotationContext src ask n parent) := by
  unfold annotationContext
  split
  · split
    · exact .some (meaning_safe h (by omega) _)
    · exact .pure Scene.seesAll_none
  · exact .pure Scene.seesAll_none

end

/-- What is expected at a node is asked of nodes further out. -/
theorem contextType_safe (hs : src.LaidOut) {n : NodeId} (hl : c.level src (.context n) ≤ l) :
    Safe c p c.SeesAll (contextType src ask n) := by
  have hleast : 2 < l := level_context_le.trans hl
  unfold contextType
  split
  · exact .pure Scene.seesAll_none
  · next parent hparent =>
    obtain ⟨hlt, hn⟩ := hs.parent_lt hparent
    have hlevel {m : NodeId} (hm : m.idx ≤ parent.idx) : c.level src (.context m) < l :=
      (level_context_lt hn (hm.trans_lt hlt)).trans_le hl
    have houtwards := h _ (hlevel le_rfl) p
    split
    iterate 2 exact houtwards
    iterate 5 exact annotationContext_safe h hleast _ _
    · split
      · next fn hfn =>
        exact returnContext_safe h hleast
          (hlevel (hs.idx_lt_of_mem_ancestors (List.mem_of_find?_eq_some hfn)).le)
      · exact .pure Scene.seesAll_none
    · split
      · exact returnContext_safe h hleast (hlevel le_rfl)
      · exact .pure Scene.seesAll_none
    · exact argumentContext_safe h hleast _ _
    · exact pairContext_safe h hleast fun object hobject => hlevel (hs.parent_lt hobject).1.le
    · refine .bind houtwards fun _ _ _ _ => ?_
      split
      · exact .some (elementType_safe _ _)
      · exact .pure Scene.seesAll_none
    · split
      · exact .some (expression_safe h (by omega) _)
      · exact .pure Scene.seesAll_none
    iterate 2
      split
      · split
        · exact .some (meaning_safe h (by omega) _)
        · exact .pure Scene.seesAll_none
      · exact .pure Scene.seesAll_none
    · split
      · exact houtwards
      · exact .pure Scene.seesAll_none
    · split
      · split
        · exact houtwards
        · exact .pure Scene.seesAll_none
      · exact .pure Scene.seesAll_none
    · exact .pure Scene.seesAll_none

/-! ### Parts of expressions -/

omit h in
/-- Declaring a key of a literal makes a member at most, and leaves the types alone. -/
theorem declareKey_safe {file : FileId} {shape : SymbolId} {members : TableId} {key : NodeId}
    {trait : Trait} {name : String} (htrait : trait = .property ∨ trait = .method)
    (hp : Sound c p) :
    Sound c ((declareKey src file shape members key trait name).after p) ∧
      p.Retains ((declareKey src file shape members key trait name).after p) := by
  have hmember : (((Traits.of [trait]).insertIf (Binding.isLiteralName src key) .quoted).insertIf
      false .ambient).meets Traits.leading = false := by
    rcases htrait with rfl | rfl <;> cases Binding.isLiteralName src key <;> decide
  unfold declareKey
  rw [Build.after_bind, Build.after_read, Build.value_read]
  split
  · next existing _ =>
    have hjoined : Settled c (p.modifySymbol existing fun x => { x with decls := x.decls ++ [key] }) :=
      hp.toSettled.modifySymbol existing (fun _ => rfl) (fun _ => rfl) (fun _ _ => rfl)
        (hp.targets existing)
    exact ⟨hp.of_memory rfl rfl (hjoined.congr rfl rfl) rfl rfl, .of_types_eq rfl⟩
  · unfold Binding.declareMember
    simp only [Build.after_bind, Build.value_get, Build.after_get]
    split
    · next existing _ =>
      have hjoined := hp.toSettled.modifySymbol
        (f := fun x => { x with traits := x.traits.union _, decls := x.decls ++ [key] }) existing
        (fun _ => Traits.meets_union_of_not hmember)
        (fun _ => Traits.meets_union_of_not (Traits.meets_aliasing_eq_false hmember))
        (fun _ _ => rfl) (hp.targets existing)
      exact ⟨hp.of_memory rfl rfl (hjoined.congr rfl rfl) rfl rfl, .of_types_eq rfl⟩
    · refine ⟨hp.of_memory rfl rfl (.congr (p := p.addSymbol _) ?_ rfl rfl) rfl rfl, .of_types_eq rfl⟩
      exact hp.toSettled.addSymbol hmember rfl

section

variable (hl : 2 < l)
include hl

theorem checkArguments_safe (call : NodeId) : Safe c p anything (checkArguments src ask call) := by
  unfold checkArguments
  split
  · exact .forM fun _ _ _ => .bind (expression_safe h (by omega) _) fun _ _ _ _ => .pure trivial
  · exact .pure trivial

theorem memberAccess_safe (n : NodeId) (hn : src.kind n = "member_expression") :
    Safe c p c.Sees (memberAccess src ask n hn) := by
  refine .bind (expression_safe h (by omega) _) fun _ _ _ _ => ?_
  split
  · exact unknown_safe
  · refine .bind linkMember_safe fun _ _ _ _ => ?_
    split
    · exact unknown_safe
    · exact valueOf_safe h hl _

theorem indexAccess_safe (n : NodeId) (hn : src.kind n = "subscript_expression") :
    Safe c p c.Sees (indexAccess src ask n hn) := by
  refine .bind (expression_safe h (by omega) _) fun _ _ _ _ => ?_
  dsimp only
  split
  · refine .bind linkMember_safe fun _ _ _ _ => ?_
    split
    · exact valueOf_safe h hl _
    · exact unknown_safe
  · exact .bind (expression_safe h (by omega) _) fun _ _ _ _ => elementType_safe _ _

theorem thisType_safe (n : NodeId) : Safe c p c.SeesAll (thisType src ask n) := by
  unfold thisType
  dsimp only
  split
  · exact .some unknown_safe
  · split
    · exact .some unknown_safe
    · split
      · exact .some (expression_safe h (by omega) _)
      · refine .read_bind fun _ => ?_
        split
        · exact .some unknown_safe
        · split
          · exact .some (valueOf_safe h hl _)
          · exact declaredBy_safe h (by omega) _

/-! ### Expressions -/

omit h hl in
theorem checkKey_safe {own : List LiteralShape} (expected? : Option TypeId) (file : FileId)
    (literal : LiteralShape) (key : NodeId) (trait : Trait) (name : String)
    (hliteral : literal ∈ own) (hkey : src.IsLiteralKey key) (hname : src.Spells key name)
    (htrait : trait = .property ∨ trait = .method) : Safe c p anything
      (checkKey src expected? file literal key trait name hliteral hkey hname htrait) := by
  refine .bind linkMember_safe fun q _ _ _ => ?_
  split
  · exact .pure trivial
  · intro hq
    have ⟨hend, hretains⟩ :=
      @declareKey_safe src c q file literal.symbol literal.table key trait name htrait hq
    exact ⟨hend, hretains, trivial⟩

omit h hl in
/-- The type of a literal is remembered for the node, and for the shape that it is of. -/
theorem sound_literal {n : NodeId} {shape : SymbolId} {t : TypeId} (hp : Sound c p)
    (ht : c.Sees p t) :
    Sound c { p with
      expressionTypes := p.expressionTypes.insert n t
      declaredTypes := p.declaredTypes.insert shape t } := by
  have hdeclared : Sound c (p.remember t (.answer (.declaredBy shape))) := hp.remember ht
  refine hdeclared.of_types_eq rfl rfl (hdeclared.toSettled.congr rfl rfl) rfl rfl (fun x u hu => ?_)
    rfl
  by_cases hx : ∃ m, x = .answer (.expression m)
  · obtain ⟨m, rfl⟩ := hx
    change (p.expressionTypes.insert n t)[m]? = some u at hu
    rw [Table.getElem?_insert] at hu
    split at hu
    · rwa [← Option.some.inj hu]
    · exact hp.memos (.answer (.expression m)) u hu
  · refine hdeclared.memos x u (Eq.trans ?_ hu)
    rcases x with (_ | _ | m | _ | _) | _ | _
    case answer.expression => exact absurd ⟨m, rfl⟩ hx
    all_goals rfl

theorem objectLiteral_safe {n : NodeId} (hcontext : c.level src (.context n) < l)
    (hn : src.kind n = "object") : Safe c p c.Sees (objectLiteral src ask n hn) := by
  refine .bind (h _ hcontext p) fun q context? _ hcontext => .read_bind fun _ => ?_
  generalize hexpected : (context?.filter fun t => !q.isIntrinsic t) = expected?
  have hexpected : c.SeesAll q expected? := by
    intro t ht
    rw [← hexpected] at ht
    exact hcontext t (Option.filter_eq_some_iff.mp ht).1
  refine withShape_safe (show (Traits.of [.shape]).meets Traits.leading = false by decide) rfl
    fun q₁ literal h₁ => ?_
  refine .bind (.lift (objectType_safe _ _)) fun q₂ t h₂ ht =>
    .bind (setShapeAt_safe _ _) fun q₃ _ h₃ _ =>
    .bind (V := anything) (fun hq => ⟨sound_literal hq (ht.sees h₃), .of_types_eq rfl, trivial⟩)
      fun q₄ _ h₄ _ =>
    .bind (.forM fun part q₅ _ => ?_) fun q₅ _ h₅ _ => ?_
  · obtain ⟨part, hpart⟩ := part
    dsimp only
    split
    · refine .bind (.lift (expression_safe h (by omega) _)) fun _ base _ hbase => .read_bind fun _ => ?_
      split
      · exact .addBase hbase
      · exact .pure trivial
    · split
      · exact .pure trivial
      · split
        · exact .pure trivial
        · exact checkKey_safe _ _ _ _ _ _ _ _ _ _
  · have hend := ht.sees ((h₃.trans h₄).trans h₅)
    split
    · have hbase := (hexpected.retained ((h₁.trans h₂).trans ((h₃.trans h₄).trans h₅))) _ rfl
      exact .bind (.addBase hbase) fun _ _ hlast _ => .pure (hend.retained hlast)
    · exact .pure hend

/-- The end of a call, once the type of what is called is known. -/
theorem callResult_safe (n : NodeId) (ft? : Option TypeId) : Safe c p c.Sees (do
    checkArguments src ask n
    match ← firstSignature? ft? with
    | some sig => return sig.result
    | none => unknown) := by
  refine .bind (checkArguments_safe h hl n) fun _ _ _ _ => .bind (firstSignature?_safe _)
    fun _ sig? _ hsig => ?_
  split
  · exact .pure (hsig _ rfl)
  · exact unknown_safe

theorem callType_safe (n : NodeId) : Safe c p c.Sees (callType src ask n) := by
  unfold callType
  dsimp only
  split
  · exact .bind (expression_safe h (by omega) _) fun _ _ _ _ =>
      .bind (V := anything) (.pure trivial) fun _ _ _ _ => callResult_safe h hl n _
  · exact .bind (V := anything) (.pure trivial) fun _ _ _ _ => callResult_safe h hl n _

end

theorem expressionType_safe (hl : levels src ≤ l) (n : NodeId) :
    Safe c p c.SeesAll (expressionType src ask n) := by
  have hleast : 2 < l := two_lt_of_levels_le hl
  have hexpression (p : Program) (n? : Option NodeId) : Safe c p c.Sees (ask.expression n?) :=
    expression_safe h (by omega) _
  unfold expressionType
  split
  iterate 2 exact .read_bind fun _ => .some (valueOf_safe h hleast _)
  · exact thisType_safe h hleast n
  · exact .some (memberAccess_safe h hleast n _)
  · exact .some (indexAccess_safe h hleast n _)
  · exact .some (callType_safe h hleast n)
  · refine .bind (hexpression _ _) fun q side _ _ => .bind (checkArguments_safe h hleast n)
      fun r _ _ _ => .read_bind fun hr => ?_
    split
    · next t heq => exact .pure (Scene.seesAll_some ((hr.infos side).instance? t heq))
    · exact .some unknown_safe
  · next hkind =>
    exact .some (objectLiteral_safe h hleast ((level_lt_levels _).trans_le hl) hkind)
  · refine .bind (.mapM_sees fun _ _ _ => hexpression _ _) fun q parts _ hparts => ?_
    dsimp only
    split
    · exact .newArray fun _ _ _ _ => .imp unknown_safe fun _ _ => List.forall_mem_singleton.mpr
    · exact .newArray fun _ _ hr ht => .imp (composite_safe _ ((hparts.hide ht).retained hr))
        fun _ _ => List.forall_mem_singleton.mpr
  iterate 4 exact h _ ((level_lt_levels _).trans_le hl) p
  · refine .read_bind fun _ => ?_
    split
    · exact .some (valueOf_safe h hleast _)
    · exact .some unknown_safe
  iterate 4 exact .some (hexpression _ _)
  iterate 2
    split
    · exact .some unknown_safe
    · exact .some (hexpression _ _)
    · refine .bind (hexpression _ _) fun q inner _ hinner =>
        .bind (meaning_safe h (by omega) _) fun r t hqr ht => .pure ?_
      split
      · exact Scene.seesAll_some (hinner.retained hqr)
      · exact Scene.seesAll_some ht
  · refine .foldlM (fun q t? part ht => ?_) Scene.seesAll_none
    split
    · exact .some (meaning_safe h (by omega) _)
    · exact .bind (hexpression _ _) fun _ _ hqr _ => .pure (ht.retained hqr)
  · exact .bind (hexpression _ _) fun _ _ _ _ => .bind (hexpression _ _) fun _ _ _ hyes =>
      .bind (hexpression _ _) fun _ _ hqr hno =>
      .some (composite_safe _ (Scene.seesAll_pair (hyes.retained hqr) hno))
  · refine .bind (hexpression _ _) fun _ _ _ hleft => .bind (hexpression _ _)
      fun _ _ hqr hright => ?_
    split
    · exact .some (composite_safe _ (Scene.seesAll_pair (hleft.retained hqr) hright))
    · exact .some (intrinsic_safe _)
  · exact .bind (hexpression _ _) fun _ _ _ _ => .some (hexpression _ _)
  · exact .bind (hexpression _ _) fun _ _ _ _ => .bind (hexpression _ _) fun _ _ _ _ =>
      .some (intrinsic_safe _)
  · exact .foldlM (fun _ _ _ _ => .some (hexpression _ _)) Scene.seesAll_none
  iterate 7 exact .some (intrinsic_safe _)
  · exact .some (foreign_safe _ Scene.seesAll_nil)
  · exact .some unknown_safe

end Typing
end
end Moniker
