/-
# Answers and what they leave behind

A question is answered from memory, or by its rule while it counts as open.  Either way
the answer rests (`Typing.answer_rests`): links are made only by the rules of accesses,
object literals and dotted types, and where all links are made these have been answered
already.  By induction on the depth the same goes for questions that ask further ones
(`Typing.solve_rests`), and so for what a user asks.

A question that was not open is remembered once it has been asked
(`Typing.exists_recalled_solve`), and what is remembered is the answer from then on
(`Typing.solve_of_recalled`).
-/

import Moniker.Proofs.Typing.Rules

namespace Moniker

open Program (Rested)
open Query (Rests)
open Typing (Watch Memo Ready)

/-- The question that may be open. -/
def Pending.question : Pending → Question
  | .valueOf s => .valueOf s
  | .declaredBy s => .declaredBy s
  | .expression n => .expression n
  | .position n => .position n
  | .meaning n => .meaning n

namespace Typing

variable {src : Source} {ask : Ask src} {w : Watch} {p : Program}

/-- A rule leaves nothing open but what was open, if its question was not. -/
theorem whileOpen_rested {α : Type} {q : Pending} {rule : Query src [] α} (hrule : rule.Rests w)
    (hp : Ready src w p) (hq : p.pending.contains q = false) :
    Rested w p ((whileOpen src q rule).run p).2 := by
  let opened : Program := { p with pending := p.pending.insert q }
  have hopened : Rested w opened (rule.run opened).2 :=
    hrule opened fun hw => ⟨fun n => ⟨((hp hw).1 n).expression, ((hp hw).1 n).meaning⟩, (hp hw).2⟩
  let closed : Program :=
    { (rule.run opened).2 with pending := (rule.run opened).2.pending.erase q }
  refine show Rested w p closed from
    ⟨hopened.expression, hopened.meaning, fun x => ?_, hopened.size, hopened.types,
      fun hw => ?_, fun hw => ?_⟩
  · change ((rule.run opened).2.pending.erase q).contains x = _
    rw [KeySet.contains_erase, hopened.pending x]
    change (!(q == x) && (p.pending.insert q).contains x) = _
    rw [KeySet.contains_insert]
    cases hx : q == x with
    | false => rfl
    | true =>
      rw [eq_of_beq hx] at hq
      exact hq.symm
  · have hindex := hopened.index hw
    exact ⟨hindex.declared, hindex.memberAt, hindex.uses, hindex.decls⟩
  · have hanswers := hopened.answers hw
    refine ⟨fun x hx t ht => ?_, hanswers.kept, hanswers.traits, hanswers.shapeAt, hanswers.tables⟩
    have hkept := hanswers.recalled x hx t (by cases x <;> exact ht)
    cases x <;> exact hkept

/-- A question is answered from memory, or it is open, or its rule answers it. -/
theorem remembered_cases {find : Program → Option TypeId} {q : Pending}
    {rule : Query src [] (Option TypeId)} {I : Option TypeId × Program → Prop}
    (hknown : ∀ t, find p = some t → I (some t, p))
    (hopen : p.pending.contains q = true →
      I ((do return some (← Query.unknown) : Query src [] (Option TypeId)).run p))
    (hrule : find p = none → p.pending.contains q = false → I (rule.run p)) :
    I (Query.run (do
      match ← Query.read find with
      | some t => return some t
      | none => if ← isOpen src q then return some (← Query.unknown) else rule) p) := by
  have hread : ∀ more, ((Query.read find >>= more : Query src [] (Option TypeId)).run p) =
      (more (find p)).run p := fun _ => rfl
  have hisOpen : ∀ more, ((isOpen src q >>= more : Query src [] (Option TypeId)).run p) =
      (more (p.pending.contains q)).run p := fun _ => rfl
  rw [hread]
  split
  · next hfind => exact hknown _ hfind
  · next hfind =>
    rw [hisOpen]
    split
    · next hq => exact hopen hq
    · next hq => exact hrule hfind (Bool.eq_false_iff.mpr hq)

theorem remembered_rests {find : Program → Option TypeId} {q : Pending}
    {rule : Query src [] (Option TypeId)}
    (hrule : ∀ p, Ready src w p → find p = none → p.pending.contains q = false →
      Rested w p (rule.run p).2) :
    Rests w (do
      match ← Query.read find with
      | some t => return some t
      | none => if ← isOpen src q then return some (← Query.unknown) else rule) :=
  fun p hp => remembered_cases (I := fun r => Rested w p r.2) (fun _ _ => .refl p)
    (fun _ => Query.unknown_rests p hp) (hrule p hp)

theorem orUnknown_rests (t? : Option TypeId) : Rests w (orUnknown src t?) := by
  cases t? with
  | some t => exact .pure _
  | none => exact Query.unknown_rests

section

variable (h : ∀ w q, (ask q).Rests w)
include h

/-- **Answering a question rests if the further questions do.** While it is worked out
nothing is remembered for it that would have to stay. -/
theorem answer_rests (q : Question) : Rests w (answer src ask q) := by
  have hfollow {p : Program} (hp : Ready src w p) {x : Pending} {α β : Type} {rule : Query src [] α}
      {more : α → Query src [] β} (hfind : p.recalled? (.answer x) = none)
      (hx : p.pending.contains x = false) (hrule : rule.Rests (w.except (.answer x)))
      (hmore : ∀ a, (more a).Rests (w.except (.answer x))) :
      Rested w p ((whileOpen src x rule >>= more).run p).2 := by
    have hfirst := whileOpen_rested hrule hp hx
    exact (hfirst.trans (hmore _ _ (hfirst.ready hp))).of_except hfind
  cases q with
  | valueOf s =>
    exact remembered_rests fun p hp hfind hq => hfollow hp hfind hq (valueType_rests (h _) s)
      fun t => .bind (fun _ _ => .remember (x := .answer (.valueOf s)) t) fun _ => .pure _
  | declaredBy s =>
    refine remembered_rests fun p hp hfind hq => .of_except (x := .answer (.declaredBy s)) ?_ hfind
    exact whileOpen_rested (declaredType_rests (h _) fun _ hs => hs.2 rfl) hp hq
  | meaning n =>
    refine remembered_rests fun p hp hfind hq => hfollow hp hfind hq
      (annotationType_rests (h _) n fun hw hn => ?_) fun t? => .bind (orUnknown_rests t?) fun t =>
        .bind (fun _ _ => .remember (x := .answer (.meaning n)) t) fun _ => .pure _
    have hknown := ((hp hw).1 n).meaning hn
    rw [Std.TreeMap.contains_eq_isSome_getElem?, hfind] at hknown
    exact nomatch hknown
  | expression n =>
    refine remembered_rests fun p hp hfind hq => hfollow hp hfind hq
      (expressionType_rests (h _) n fun hw hn => ?_) fun t? => .bind (orUnknown_rests t?) fun t =>
        .bind (fun _ _ => .remember (x := .answer (.expression n)) t) fun _ => .read _
    have hknown := ((hp hw).1 n).expression hn
    rw [Std.TreeMap.contains_eq_isSome_getElem?, hfind] at hknown
    exact nomatch hknown
  | position n =>
    exact remembered_rests fun p hp hfind hq => hfollow hp hfind hq (positionType_rests (h _) n)
      fun t => .bind (fun _ _ => .remember (x := .answer (.position n)) t) fun _ => .pure _
  | context n => exact contextType_rests (h w) n
  | function n => exact .some (functionType_rests h n)

end

/-- What is remembered of a question is its answer. -/
theorem answer_of_recalled {x : Pending} {t : TypeId} (h : p.recalled? (.answer x) = some t) :
    (answer src ask x.question).run p = (some t, p) := by
  have hread {find : Program → Option TypeId} (hfind : find p = some t)
      (make : Query src [] (Option TypeId)) : (Query.read find >>= fun
        | some t => Pure.pure (some t)
        | none => make : Query src [] (Option TypeId)).run p = (some t, p) := by
    change Query.run (match find p with
      | some t => Pure.pure (some t)
      | none => make) p = _
    rw [hfind]
    rfl
  cases x <;> exact hread h _

/-- **A question that was not open is remembered once it has been answered,** with the type it
was answered with; only symbols may declare no type. -/
theorem exists_recalled_answer {x : Pending} (hx : ∀ s, x ≠ .declaredBy s)
    (hopen : p.pending.contains x = false) : ∃ t, ((answer src ask x.question).run p).1 = some t ∧
      ((answer src ask x.question).run p).2.recalled? (.answer x) = some t := by
  have habsurd {P : Prop} : p.pending.contains x = true → P := by
    rw [hopen]
    exact nofun
  cases x with
  | valueOf s =>
    exact remembered_cases (I := fun r => ∃ t, r.1 = some t ∧ r.2.valueTypes[s]? = some t)
      (fun t ht => ⟨t, rfl, ht⟩) habsurd fun _ _ => ⟨_, rfl, Std.TreeMap.getElem?_insert_self⟩
  | declaredBy s => exact absurd rfl (hx s)
  | meaning n =>
    exact remembered_cases (I := fun r => ∃ t, r.1 = some t ∧ r.2.annotationTypes[n]? = some t)
      (fun t ht => ⟨t, rfl, ht⟩) habsurd fun _ _ => ⟨_, rfl, Std.TreeMap.getElem?_insert_self⟩
  | expression n =>
    refine remembered_cases (I := fun r => ∃ t, r.1 = some t ∧ r.2.expressionTypes[n]? = some t)
      (fun t ht => ⟨t, rfl, ht⟩) habsurd fun _ _ => ?_
    refine (Option.isSome_iff_exists.mp ?_).imp fun t ht => ⟨ht, ht⟩
    exact Std.TreeMap.contains_eq_isSome_getElem?.symm.trans Std.TreeMap.contains_insertIfNew_self
  | position n =>
    exact remembered_cases (I := fun r => ∃ t, r.1 = some t ∧ r.2.positionTypes[n]? = some t)
      (fun t ht => ⟨t, rfl, ht⟩) habsurd fun _ _ => ⟨_, rfl, Std.TreeMap.getElem?_insert_self⟩

theorem answerWithin_rests (fuel : Nat) (q : Question) : Rests w (answerWithin src fuel q) := by
  induction fuel generalizing w q with
  | zero => exact .bind Query.cutOff_rests fun _ => .pure _
  | succ fuel ih => exact answer_rests (fun _ q => ih q) q

/-- **Answering a question forgets nothing, leaves nothing open, and makes no links where all
are made.** -/
theorem solve_rests (q : Question) : Rests w (solve src q) :=
  .bind (.read _) fun bound => answerWithin_rests bound q

theorem solve_of_recalled {x : Pending} {t : TypeId} (h : p.recalled? (.answer x) = some t) :
    (solve src x.question).run p = (some t, p) := by
  obtain ⟨fuel, hsolve⟩ := @exists_run_solve src x.question p
  rw [hsolve]
  exact answer_of_recalled h

theorem exists_recalled_solve {x : Pending} (hx : ∀ s, x ≠ .declaredBy s)
    (hopen : p.pending.contains x = false) : ∃ t, ((solve src x.question).run p).1 = some t ∧
      ((solve src x.question).run p).2.recalled? (.answer x) = some t := by
  obtain ⟨fuel, hsolve⟩ := @exists_run_solve src x.question p
  rw [hsolve]
  exact exists_recalled_answer hx hopen

theorem run_known {q : Question} {t : TypeId} {p' : Program} (h : (ask q).run p = (some t, p')) :
    (ask.known q).run p = (t, p') := Query.run_or h

/-- An answer that is taken for granted is remembered as well. -/
theorem isSome_recalled_known {x : Pending} (hx : ∀ s, x ≠ .declaredBy s)
    (hopen : p.pending.contains x = false) :
    ((((solve src).known x.question).run p).2.recalled? (.answer x)).isSome = true := by
  obtain ⟨t, hvalue, hrecalled⟩ := @exists_recalled_solve src p x hx hopen
  rw [run_known (Prod.ext hvalue rfl : (solve src x.question).run p = (some t, _)), hrecalled]
  rfl

end Typing

/-! ### What a user asks -/

namespace Query

variable {src : Source} {w : Watch}

open Typing (solve solve_rests)

theorem typeOfSymbol_rests (s : SymbolId) : (typeOfSymbol s : Query src [] TypeId).Rests w :=
  Ask.known_rests solve_rests _

theorem declaredTypeOf_rests (s : SymbolId) :
    (declaredTypeOf s : Query src [] (Option TypeId)).Rests w :=
  solve_rests _

theorem typeOfNode_rests (n : NodeId) : (typeOfNode n : Query src [] TypeId).Rests w := by
  have hdeclaration : (typeOfDeclaration n : Query src [] TypeId).Rests w :=
    Typing.declarationType_rests solve_rests n
  refine .bind (.read _) fun s? => ?_
  split
  · refine .bind (.read _) fun sym => ?_
    split
    · refine .bind (declaredTypeOf_rests _) fun t? => ?_
      split
      · exact .pure _
      · exact hdeclaration
    · split
      · exact typeOfSymbol_rests _
      · split
        · exact typeOfSymbol_rests _
        · exact hdeclaration
  · refine .bind (.read _) fun shape? => ?_
    split
    · exact Ask.known_rests solve_rests _
    · split
      · exact Ask.known_rests solve_rests _
      · split
        · exact Ask.known_rests solve_rests _
        · exact Ask.known_rests solve_rests _

end Query
end Moniker
