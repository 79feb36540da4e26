/-
# Questions asked again

A question that has been answered is answered from memory from then on: asked again, it
gives the same type and adds nothing (`Query.Stays`).  Two facts make this so.  What a
question leaves in memory is its answer, and once all links are made memory only grows
(`Program.Onward`).

That a rule leaves its answer in memory is plain where it is put there at the end.  What
a symbol declares is remembered before its members and bases are worked out, and a
function-like node before its signature is; so their rules are gone through once more,
for what they `Tell`.
-/

import Moniker.Proofs.Typing.Checked

namespace Moniker

open Program (Extends Rested)
open Query (Rests)
open Typing (Watch Memo Idle AllLinked)

/-- What questions make of a program in which all links are made. -/
structure Program.Onward (src : Source) (p q : Program) : Prop where
  added : Extends src p q
  rested : Rested (.all 0) p q

namespace Program.Onward

variable {src : Source} {p q r : Program} {x : Memo} {t : TypeId}

theorem refl (p : Program) : Onward src p p := ⟨.refl p, .refl p⟩

/-- What is remembered stays. -/
theorem recalled (h : Onward src p q) (hx : p.recalled? x = some t) : q.recalled? x = some t :=
  (h.rested.answers trivial).recalled x trivial t hx

end Program.Onward

open Program (Onward)

namespace Query

variable {src : Source} {α β : Type} {m : Query src [] α} {f : α → Query src [] β} {x : Memo}
  {t : TypeId} {p : Program}

theorem onward (hm : m.Rests (.all 0)) (hp : AllLinked src p) : Onward src p (m.run p).2 :=
  ⟨m.keeps p fun _ h => absurd h List.not_mem_nil, hm p fun _ => ⟨hp, Nat.zero_le _⟩⟩

/-! ### What queries tell -/

/-- The type that the query gives, if it gives one, is remembered for `x` when it ends; the
type that is `known` is when it starts. -/
def Tells (value : α → Option TypeId) (x : Memo) (known : Option TypeId) (m : Query src [] α) :
    Prop :=
  ∀ p, AllLinked src p → (∀ t, known = some t → p.recalled? x = some t) →
    ∀ t, value (m.run p).1 = some t → (m.run p).2.recalled? x = some t

namespace Tells

variable {value : α → Option TypeId} {known : Option TypeId}

theorem pure {a : α} (h : ∀ t, value a = some t → known = some t) :
    Tells value x known (Pure.pure a : Query src [] α) := fun _ _ hknown t ht => hknown t (h t ht)

theorem bind {m : Query src [] β} {f : β → Query src [] α} (hm : m.Rests (.all 0))
    (hf : ∀ b, Tells value x known (f b)) : Tells value x known (m >>= f) := by
  intro p hp hknown
  have honward := onward hm hp
  exact hf _ _ (honward.rested.allLinked hp) fun t ht => honward.recalled (hknown t ht)

/-- What is put in memory is known. -/
theorem remember {m : Query src [] β} {f : β → Query src [] α}
    (hm : ∀ p, (m.run p).2 = p.remember t x) (hx : ∀ n, x ≠ .answer (.expression n))
    (hf : ∀ b, Tells value x (some t) (f b)) : Tells value x known (m >>= f) := by
  intro p hp _
  have hafter : ((m >>= f).run p) = (f (m.run p).1).run (p.remember t x) := by
    rw [← hm p]
    rfl
  rw [hafter]
  refine hf _ _ ((Rested.remember (w := .nothing) t).allLinked hp) fun u hu => ?_
  rw [← hu]
  exact Program.recalled?_remember t hx

theorem none : Tells id x known (Pure.pure Option.none : Query src [] (Option TypeId)) := pure nofun

theorem some {m : Query src [] TypeId} (hm : Tells Option.some x known m) :
    Tells id x known (do return Option.some (← m)) := hm

end Tells

/-! ### Queries that stay -/

/-- Run again later, the query gives the same value. -/
def Stays (m : Query src [] α) (p : Program) : Prop :=
  ∀ q, Onward src p q → Onward src (m.run p).2 q → (m.run q).1 = (m.run p).1

namespace Stays

/-- What is answered from memory stays once it is remembered. -/
theorem of_recalled (value : TypeId → α) (hvalue : (m.run p).1 = value t)
    (hrecalled : (m.run p).2.recalled? x = some t)
    (hrun : ∀ q, q.recalled? x = some t → m.run q = (value t, q)) : m.Stays p := by
  intro q _ hq
  rw [hvalue, hrun q (hq.recalled hrecalled)]

/-- So does what has a second choice, if the first one is answered from memory. -/
theorem of_recalled_or {m : Query src [] (Option TypeId)} {other : Query src [] TypeId}
    (hvalue : (m.run p).1 = some t) (hrecalled : (m.run p).2.recalled? x = some t)
    (hrun : ∀ q, q.recalled? x = some t → m.run q = (some t, q)) :
    Stays (do
      match ← m with
      | some t => return t
      | none => other) p := by
  have hfirst := @run_or src [] m other t p _ (Prod.ext hvalue rfl)
  refine of_recalled id (congrArg Prod.fst hfirst) ?_ fun q hq => run_or (hrun q hq)
  exact (congrArg (fun r => Program.recalled? r.2 x) hfirst).trans hrecalled

/-- A query that goes by what it reads stays if it goes by the same again. -/
theorem read {g : Program → β} {f : β → Query src [] α}
    (hg : ∀ q, Onward src p q → f (g q) = f (g p)) (h : (f (g p)).Stays p) :
    Stays (Query.read g >>= f) p := by
  intro q hq hafter
  change ((f (g q)).run q).1 = ((f (g p)).run p).1
  rw [hg q hq]
  exact h q hq hafter

end Stays

theorem run_read_bind {g : Program → β} {f : β → Query src [] α} :
    (Query.read g >>= f).run p = (f (g p)).run p := rfl

theorem run_memoized_of_recalled {make : Query src [] TypeId} (h : p.recalled? x = some t) :
    (memoized x make).run p = (t, p) := by
  rw [run_memoized, h]
  rfl

/-- A type that is remembered, or else made and remembered, is remembered. -/
theorem recalled_memoized {make : Query src [] TypeId} (hp : AllLinked src p)
    (hmake : Tells some x none make) :
    ((memoized x make).run p).2.recalled? x = some ((memoized x make).run p).1 := by
  rw [run_memoized]
  cases hfind : p.recalled? x with
  | some t => exact hfind
  | none => exact hmake p hp nofun _ rfl

theorem stays_intrinsic (hp : AllLinked src p) (name : String) :
    (intrinsic name : Query src [] TypeId).Stays p := by
  rw [intrinsic_eq_memoized]
  refine .of_recalled id rfl (recalled_memoized hp ?_)
    fun _ => run_memoized_of_recalled
  exact .bind (newType_rests _) fun _ => .remember (fun _ => rfl) (fun _ => nofun) fun _ =>
    .pure fun _ h => h

theorem stays_unknown (hp : AllLinked src p) : (unknown : Query src [] TypeId).Stays p :=
  stays_intrinsic hp _

end Query

namespace Typing

variable {src : Source} {ask : Ask src} {p : Program} {s : SymbolId} {n : NodeId} {t : TypeId}

open Query Ask

/-! ### Function-like nodes -/

theorem recalled_functionType (h : ∀ w q, (ask q).Rests w) (hp : AllLinked src p) (fn : NodeId) :
    ((functionType src ask fn).run p).2.recalled? (.function fn) =
      some ((functionType src ask fn).run p).1 := by
  rw [functionType_eq_memoized]
  exact recalled_memoized hp <| .bind (.read _) fun _ => .bind (objectType_rests _ _) fun _ =>
    .remember (fun _ => rfl) (fun _ => nofun) fun _ => .bind (signatureOf_rests (h _) fn) fun _ =>
      .bind (updateType_rests fun _ => Nat.zero_le _) fun _ => .pure fun _ h => h

/-! ### What symbols declare -/

theorem declaredBy_ne_expression (s : SymbolId) (n : NodeId) :
    Memo.answer (.declaredBy s) ≠ .answer (.expression n) := nofun

section

variable (h : ∀ q, (ask q).Rests (.all 0))
include h

theorem nominalType_tells :
    Tells some (.answer (.declaredBy s)) none (nominalType src ask s) :=
  .bind (.read _) fun _ => .bind (objectType_rests _ _) fun _ =>
    .remember (fun _ => rfl) (declaredBy_ne_expression s) fun _ =>
      .bind (interfaceSignatures_rests h _) fun _ =>
        .bind (updateType_rests fun _ => Nat.zero_le _) fun _ =>
          .bind (addBases_rests h (fun _ => Nat.zero_le _) _) fun _ => .pure fun _ h => h

theorem parameterType_tells :
    Tells some (.answer (.declaredBy s)) none (parameterType src ask s) := by
  refine .bind (.read _) fun sym => .bind (newType_rests _) fun t =>
    .remember (fun _ => rfl) (declaredBy_ne_expression s) fun _ => ?_
  dsimp only
  split
  · exact .bind (meaning_rests h _) fun _ =>
      .bind (updateType_rests fun _ => Nat.zero_le _) fun _ => .pure fun _ h => h
  · exact .pure fun _ h => h

/-- What a symbol declares is remembered when it has been worked out. -/
theorem declaredType_tells : Tells id (.answer (.declaredBy s)) none (declaredType src ask s) := by
  refine .bind (.read _) fun sym => ?_
  split
  · refine .bind (resolveAlias_rests s) fun target? => ?_
    split
    · exact .none
    · refine .bind (declaredBy_rests h _) fun t? => ?_
      split
      · exact .none
      · exact .remember (fun _ => rfl) (declaredBy_ne_expression s) fun _ => .pure fun _ h => h
  split
  · exact .some (nominalType_tells h)
  split
  · exact .bind (aliasType_rests h s) fun _ =>
      .remember (fun _ => rfl) (declaredBy_ne_expression s) fun _ => .pure fun _ h => h
  split
  · exact .bind (objectType_rests _ _) fun _ =>
      .remember (fun _ => rfl) (declaredBy_ne_expression s) fun _ => .pure fun _ h => h
  split
  · refine .bind (objectType_rests _ _) fun t =>
      .remember (fun _ => rfl) (declaredBy_ne_expression s) fun _ => ?_
    split
    · exact .bind (callSignatures_rests h _) fun _ =>
        .bind (updateType_rests fun _ => Nat.zero_le _) fun _ => .pure fun _ h => h
    · exact .pure fun _ h => h
  split
  · exact .some (parameterType_tells h)
  · exact .none

end

/-! ### Questions -/

/-- **A question that has been answered stays.** -/
theorem known_stays {x : Pending} (hp : Idle p) (hx : ∀ s, x ≠ .declaredBy s) :
    (known (solve src) x.question).Stays p := by
  obtain ⟨t, hvalue, hrecalled⟩ := exists_recalled_solve hx (hp x)
  exact .of_recalled_or hvalue hrecalled fun _ => solve_of_recalled

/-- A rule tells what it tells while its question counts as open. -/
theorem whileOpen_tells {α : Type} {value : α → Option TypeId} {x : Memo} {q : Pending}
    {rule : Query src [] α} (hrule : Tells value x none rule) :
    Tells value x none (whileOpen src q rule) := by
  intro p hp _ t ht
  let opened : Program := { p with pending := p.pending.insert q }
  have htold : (rule.run opened).2.recalled? x = some t :=
    hrule opened (fun n => ⟨(hp n).expression, (hp n).meaning⟩) nofun t ht
  rcases x with (_ | _ | _ | _ | _) | _ | _ <;> exact htold

theorem function_stays (hp : AllLinked src p) (fn : NodeId) :
    (known (solve src) (.function fn)).Stays p := by
  have hsolve : ∀ q, ∃ fuel, (known (solve src) (.function fn)).run q =
      (functionType src (answerWithin src fuel) fn).run q := by
    intro q
    obtain ⟨fuel, hfuel⟩ := @exists_run_solve src (.function fn) q
    exact ⟨fuel, run_known hfuel⟩
  obtain ⟨fuel, hrun⟩ := hsolve p
  refine .of_recalled id (x := .function fn) (by rw [hrun]; rfl) ?_ fun q hq => ?_
  · rw [hrun]
    exact recalled_functionType (fun w q => answerWithin_rests fuel q) hp fn
  · obtain ⟨fuel', hrun'⟩ := hsolve q
    rw [hrun', functionType_eq_memoized]
    exact run_memoized_of_recalled hq

theorem recalled_declaredBy (hp : AllLinked src p) (hidle : Idle p)
    (h : ((solve src (.declaredBy s)).run p).1 = some t) :
    ((solve src (.declaredBy s)).run p).2.recalled? (.answer (.declaredBy s)) = some t := by
  obtain ⟨fuel, hsolve⟩ := @exists_run_solve src (.declaredBy s) p
  rw [hsolve] at h ⊢
  have hask : ∀ q, (answerWithin src fuel q).Rests (.all 0) := answerWithin_rests fuel
  have htells := whileOpen_tells (q := .declaredBy s) (declaredType_tells (s := s) hask)
  refine remembered_cases
    (I := fun r => r.1 = some t → r.2.recalled? (.answer (.declaredBy s)) = some t)
    (fun u hu heq => hu.trans heq) (fun hopen => absurd hopen (by rw [hidle]; decide))
    (fun _ _ hvalue => htells p hp nofun t hvalue) h

/-- What a symbol declares stays, if it declares a type. -/
theorem declaredBy_stays (hp : AllLinked src p) (hidle : Idle p)
    (h : ((solve src (.declaredBy s)).run p).1 = some t) :
    (known (solve src) (.declaredBy s)).Stays p :=
  .of_recalled_or h (recalled_declaredBy hp hidle h) fun _ => solve_of_recalled

theorem valueOf_stays (hp : AllLinked src p) (hidle : Idle p) (s? : Option SymbolId) :
    (valueOf (solve src) s?).Stays p := by
  cases s? with
  | none => exact stays_unknown hp
  | some s => exact known_stays (x := .valueOf s) hidle fun _ => nofun

/-- The type of a name where it is declared stays. -/
theorem declarationType_stays (hp : AllLinked src p) (hidle : Idle p) (n : NodeId) :
    (declarationType src (solve src) n).Stays p := by
  have hmeaning (n : NodeId) : (meaning (solve src) (some n)).Stays p :=
    known_stays (x := .meaning n) hidle fun _ => nofun
  have hexpression (n : NodeId) : (expression (solve src) (some n)).Stays p :=
    known_stays (x := .expression n) hidle fun _ => nofun
  unfold declarationType
  split
  · exact stays_unknown hp
  · next parent _ =>
    have hotherwise : Stays (if src.isKind n ["object", "arrow_function", "function_expression",
        "function", "class"] then expression (solve src) (some n)
        else known (solve src) (.position n)) p := by
      split
      · exact hexpression n
      · exact known_stays (x := .position n) hidle fun _ => nofun
    dsimp only
    split
    iterate 3
      split
      · exact hmeaning _
      · exact hexpression _
      · exact stays_unknown hp
    iterate 3
      split
      · exact function_stays hp _
      · exact hotherwise
    · split
      · split
        · exact hexpression _
        · exact hotherwise
      · exact hotherwise
    · split
      · refine .read (fun q hq => ?_) (valueOf_stays hp hidle _)
        rw [hq.added.referenced_eq]
      · exact hotherwise
    iterate 2 exact stays_intrinsic hp _
    · exact hexpression n
    · exact stays_unknown hp
    · exact hotherwise

end Typing

namespace Query

open Typing Ask

variable {src : Source} {p : Program} {s : SymbolId} {n : NodeId}

theorem typeOfSymbol_stays (hp : Idle p) (s : SymbolId) :
    (typeOfSymbol s : Query src [] TypeId).Stays p :=
  known_stays (x := .valueOf s) hp fun _ => nofun

/-- What a symbol declares stays, if it declares a type. -/
theorem declaredTypeOf_stays (hp : AllLinked src p) (hidle : Idle p)
    (h : ((declaredTypeOf s : Query src [] (Option TypeId)).run p).1.isSome = true) :
    (declaredTypeOf s : Query src [] (Option TypeId)).Stays p := by
  obtain ⟨t, ht⟩ := Option.isSome_iff_exists.mp h
  exact .of_recalled some ht (recalled_declaredBy hp hidle ht) fun _ => solve_of_recalled

theorem typeOfDeclaration_stays (hp : AllLinked src p) (hidle : Idle p) (n : NodeId) :
    (typeOfDeclaration n : Query src [] TypeId).Stays p := declarationType_stays hp hidle n

end Query

/-- The symbol that is asked what it declares when the type at a node is asked for. -/
def Program.declaringAt? (src : Source) (p : Program) (n : NodeId) : Option SymbolId :=
  match p.declared[n]? with
  | some s =>
    if (p.symbol s).isAny
        (Traits.of [.classDecl, .interfaceDecl, .aliasDecl, .typeParameter, .enumDecl])
    then some s else none
  | none => (p.shapeAt[n]?).filter fun _ => src.kind n == "object_type"

namespace Query

open Typing Ask

variable {src : Source} {p : Program} {n : NodeId}

/-- **The type at a node stays,** if what is declared there is a type where it should be. -/
theorem typeOfNode_stays (hp : AllLinked src p) (hidle : Idle p)
    (hbound : ∀ s, p.declared[n]? = some s → s.idx < p.symbols.size)
    (h : ∀ s, p.declaringAt? src n = some s →
      ((declaredTypeOf s : Query src [] (Option TypeId)).run p).1.isSome = true) :
    (typeOfNode n : Query src [] TypeId).Stays p := by
  have hanswer {x : Pending} (hx : ∀ s, x ≠ .declaredBy s) :
      (known (solve src) x.question).Stays p := known_stays hidle hx
  refine .read (fun q hq => by rw [(hq.rested.index trivial).declared]) ?_
  split
  · next s hs =>
    refine .read (fun q hq => ?_) ?_
    · have htraits := (hq.rested.answers trivial).traits s (hbound s hs)
      simp only [Symbol.isAny, Symbol.has, Symbol.isAlias, htraits]
      rfl
    split
    · next hany =>
      have hsome := h s (by rw [Program.declaringAt?, hs]; exact if_pos hany)
      obtain ⟨t, ht⟩ := Option.isSome_iff_exists.mp hsome
      exact .of_recalled_or ht (recalled_declaredBy hp hidle ht) fun _ => solve_of_recalled
    · split
      · exact typeOfSymbol_stays hidle s
      · split
        · exact typeOfSymbol_stays hidle s
        · exact typeOfDeclaration_stays hp hidle n
  · next hnone =>
    refine .read (fun q hq => by rw [(hq.rested.answers trivial).shapeAt]) ?_
    split
    · next shape hshape =>
      obtain ⟨t, ht⟩ := Option.isSome_iff_exists.mp
        (h shape (by rw [Program.declaringAt?, hnone]; exact hshape))
      exact declaredBy_stays hp hidle ht
    · split
      · exact hanswer (x := .meaning n) (by simp)
      · split
        · exact hanswer (x := .position n) (by simp)
        · exact hanswer (x := .expression n) (by simp)

/-- The type at a node that declares nothing is what the node means or is. -/
theorem run_typeOfNode (hnone : p.declared[n]? = none) (hkind : src.kind n ≠ "object_type") :
    (typeOfNode n : Query src [] TypeId).run p =
      (if typeExpressionKinds.contains (src.kind n) then known (solve src) (.meaning n)
        else if src.isKind n ["object_pattern", "array_pattern"] then
          known (solve src) (.position n)
        else known (solve src) (.expression n)).run p := by
  have hshape : (p.shapeAt[n]?).filter (fun _ => src.kind n == "object_type") = none :=
    Option.filter_eq_none_iff.mpr fun _ _ heq => hkind (eq_of_beq heq)
  unfold typeOfNode
  rw [run_read_bind, hnone]
  dsimp only
  rw [run_read_bind, hshape]

/-- What links names is no type literal and no pattern; it is a type expression or an
expression. -/
theorem linking_kinds :
    (∀ k ∈ linkingExpressions, k ≠ "object_type" ∧ typeExpressionKinds.contains k = false ∧
      ["object_pattern", "array_pattern"].contains k = false) ∧
    ∀ k ∈ linkingAnnotations, k ≠ "object_type" ∧ typeExpressionKinds.contains k = true := by
  decide

/-- **The type of what links names stays,** whatever was asked before. -/
theorem typeOfNode_of_linking (hp : AllLinked src p) (hnone : p.declared[n]? = none)
    (hn : src.kind n ∈ linkingExpressions ++ linkingAnnotations) :
    ∃ t, ∀ q, Onward src p q → (typeOfNode n : Query src [] TypeId).run q = (t, q) := by
  have hdeclared {q : Program} (hq : Onward src p q) : q.declared[n]? = none := by
    rw [(hq.rested.index trivial).declared, hnone]
  have hanswer {x : Pending} {t : TypeId} (hx : p.recalled? (.answer x) = some t) {q : Program}
      (hq : Onward src p q) : (known (solve src) x.question).run q = (t, q) :=
    run_known (solve_of_recalled (hq.recalled hx))
  rcases List.mem_append.mp hn with hn | hn
  · obtain ⟨hkind, htype, hpattern⟩ := linking_kinds.1 _ hn
    obtain ⟨t, ht⟩ := Option.isSome_iff_exists.mp
      (Std.TreeMap.contains_eq_isSome_getElem?.symm.trans ((hp n).expression hn))
    refine ⟨t, fun q hq => ?_⟩
    rw [run_typeOfNode (hdeclared hq) hkind, htype, Source.isKind, hpattern]
    exact hanswer (x := .expression n) ht hq
  · obtain ⟨hkind, htype⟩ := linking_kinds.2 _ hn
    obtain ⟨t, ht⟩ := Option.isSome_iff_exists.mp
      (Std.TreeMap.contains_eq_isSome_getElem?.symm.trans ((hp n).meaning hn))
    refine ⟨t, fun q hq => ?_⟩
    rw [run_typeOfNode (hdeclared hq) hkind, htype]
    exact hanswer (x := .meaning n) ht hq

end Query
end Moniker
