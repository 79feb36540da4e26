/-
# What checking makes sure of

Checking asks for every access, every object literal and every dotted type of a file
(`checkNode_answered`).  No question is open when it starts, so each of them has been
answered and is remembered from then on.  After the last file all that links names has
been worked out (`allLinked_ofSource`).
-/

import Moniker.Proofs.Stages
import Moniker.Proofs.Typing.Answers

namespace Moniker

open Program (Rested)
open Query (Rests)

namespace Typing

variable {src : Source} {w : Watch} {p q : Program} {n : NodeId}

open Query Ask

/-- No question is open. -/
def Idle (p : Program) : Prop := ∀ q, p.pending.contains q = false

theorem Idle.rested (h : Rested w p q) (hp : Idle p) : Idle q := fun x => (h.pending x).trans (hp x)

/-! ### Checking rests -/

theorem isExternalCallee_rests (fuel : Nat) (callee : NodeId) :
    (isExternalCallee src fuel callee).Rests w := by
  induction fuel generalizing callee with
  | zero => exact .bind cutOff_rests fun _ => .pure _
  | succ fuel ih =>
    unfold isExternalCallee
    split
    iterate 2
      split
      · exact ih _
      · exact .pure _
    · refine .bind (.read _) fun s? => ?_
      split
      · exact .pure _
      · refine .bind (resolveAlias_rests _) fun target? => ?_
        split
        · exact .pure _
        · exact .read _
    · refine .bind (.read _) fun member? => ?_
      split
      · exact .read _
      · exact ih _
      · exact .pure _
    · exact .pure _

theorem checkExpression_rests (n : NodeId) : (checkExpression src n).Rests w :=
  .bind (expression_rests solve_rests _) fun _ => .pure _

theorem linkPatternKeys_rests (hw : ¬ w.linked) (pattern : NodeId) :
    (linkPatternKeys src pattern).Rests w := by
  refine .bind (known_rests solve_rests _) fun whole => .forM fun c _ => ?_
  split
  · exact .pure _
  · split
    · exact .pure _
    · exact .bind (linkMember_rests hw) fun _ => .pure _

theorem checkNode_rests (hw : ¬ w.linked) (n : NodeId) : (checkNode src n).Rests w := by
  unfold checkNode
  split
  iterate 4 exact checkExpression_rests n
  · refine .bind (checkExpression_rests n) fun _ => ?_
    split
    · exact .pure _
    · refine .bind (isExternalCallee_rests _ _) fun external => ?_
      split
      · split
        · exact .forM fun _ _ => addEffect_rests _
        · exact .pure _
      · exact .pure _
  · dsimp only
    split
    · split
      · refine .bind (expression_rests solve_rests _) fun t => .bind (.read _) fun ambient => ?_
        split
        · exact .bind (addEffect_rests _) fun _ => checkExpression_rests n
        · exact checkExpression_rests n
      · exact checkExpression_rests n
    · exact checkExpression_rests n
  · split
    · exact addEffect_rests _
    · exact .pure _
  · exact linkPatternKeys_rests hw n
  iterate 3 exact .bind (meaning_rests solve_rests _) fun _ => .pure _
  · refine .bind (.read _) fun s? => ?_
    split
    · exact .bind (solve_rests _) fun _ => .pure _
    · exact .pure _
  · exact .pure _

theorem checkFile_rests (hw : ¬ w.linked) (f : FileId) : (checkFile src f).Rests w :=
  .bind (.forM fun n _ => checkNode_rests hw n) fun _ => .bind (.read _) fun _ =>
    .forM fun n _ => checkExpression_rests n

/-! ### Checking answers -/

/-- **Checking a node answers what links names there.** -/
theorem checkNode_answered (hp : Idle p) : Answered src n ((checkNode src n).run p).2 := by
  refine ⟨fun hn => ?_, fun hn => ?_⟩
  · have hcheck : checkNode src n = checkExpression src n := by
      unfold checkNode
      simp only [linkingExpressions, List.mem_cons, List.not_mem_nil, or_false] at hn
      rcases hn with hn | hn | hn <;> simp only [hn]
    rw [hcheck, Std.TreeMap.contains_eq_isSome_getElem?]
    exact isSome_recalled_known (x := .expression n) (fun _ => nofun) (hp _)
  · have hcheck : checkNode src n = (do let _ ← Ask.meaning (solve src) (some n)) := by
      unfold checkNode
      simp only [linkingAnnotations, List.mem_cons, List.not_mem_nil, or_false] at hn
      rcases hn with hn | hn <;> simp only [hn]
    rw [hcheck, Std.TreeMap.contains_eq_isSome_getElem?]
    exact isSome_recalled_known (x := .meaning n) (fun _ => nofun) (hp _)

/-- Checking nodes one after another answers what links names at any of them. -/
theorem forM_answered {xs : List NodeId} (hp : Idle p) (hn : n ∈ xs) :
    Answered src n ((xs.forM (checkNode src)).run p).2 := by
  induction xs generalizing p with
  | nil => exact nomatch hn
  | cons x xs ih =>
    have hfirst : Rested .nothing p ((checkNode src x).run p).2 :=
      checkNode_rests not_false x p False.elim
    have hrest : Rested .nothing ((checkNode src x).run p).2
        (((x :: xs).forM (checkNode src)).run p).2 :=
      (Rests.forM fun y _ => checkNode_rests not_false y) _ False.elim
    rcases List.mem_cons.mp hn with rfl | hn
    · exact hrest.answered (checkNode_answered hp)
    · exact ih (hp.rested hfirst) hn

theorem checkFile_answered {f : FileId} (hp : Idle p) (hn : n ∈ src.nodesOf f) :
    Answered src n ((checkFile src f).run p).2 := by
  have hrest : Rested .nothing (((src.nodesOf f).forM (checkNode src)).run p).2
      ((checkFile src f).run p).2 :=
    Rests.bind (.read _) (fun _ => .forM fun n _ => checkExpression_rests n) _ False.elim
  exact hrest.answered (forM_answered hp hn)

end Typing

/-! ### All files -/

namespace Source

variable {src : Source} {a n : NodeId}

/-- A walk that goes into every node meets everything below. -/
theorem LaidOut.mem_walkWithin (hs : src.LaidOut) {fuel : Nat} (ha : a.idx < src.nodes.size)
    (hfuel : src.nodes.size < a.idx + fuel) (h : src.Below a n) :
    n ∈ src.walkWithin (fun _ => true) fuel a := by
  induction fuel generalizing a with
  | zero => omega
  | succ fuel ih =>
    rw [walkWithin, if_pos rfl]
    rcases Relation.ReflTransGen.cases_head h with rfl | ⟨c, hc, hn⟩
    · exact List.mem_cons_self
    · have hlt := hs.child_lt hc
      exact List.mem_cons_of_mem _ (List.mem_flatMap.mpr ⟨c, hc, ih hlt.2 (by omega) hn⟩)

/-- **Every node is one of its file's.** -/
theorem LaidOut.mem_nodesOf (hs : src.LaidOut) (hn : n.idx < src.nodes.size) :
    src.fileOf n ∈ src.fileIds ∧ n ∈ src.nodesOf (src.fileOf n) := by
  obtain ⟨hf, hbelow⟩ := hs.below_root n hn
  exact ⟨hf, hs.mem_walkWithin (hs.root hf).1 (by omega) hbelow⟩

end Source

namespace Program

variable {src : Source}

open Typing (Idle Answered AllLinked checkFile_rests checkFile_answered)

/-- A program in which nothing has been linked and nothing is asked. -/
structure Untouched (p : Program) : Prop where
  uses : p.uses = {}
  memberAt : p.memberAt = {}
  pending : p.pending = {}

theorem untouched_bound (hs : src.LaidOut) : Untouched (bound src) := by
  have hopened : Untouched (opened src) := by
    unfold opened
    refine Build.after_forM (I := Untouched) (fun f _ p hp => ?_) ⟨rfl, rfl, rfl⟩
    exact ⟨hp.uses, hp.memberAt, hp.pending⟩
  refine ⟨?_, ?_, ?_⟩
  · change (bound src).undeclared.uses = {}
    rw [undeclared_bound hs]
    exact hopened.uses
  · change (bound src).undeclared.memberAt = {}
    rw [undeclared_bound hs]
    exact hopened.memberAt
  · change (bound src).undeclared.pending = {}
    rw [undeclared_bound hs]
    exact hopened.pending

theorem idle_linked (hs : src.LaidOut) : Idle (linked src) := by
  intro x
  change (linked src).unlinked.pending.contains x = false
  rw [unlinked_linked]
  change (bound src).pending.contains x = false
  rw [(untouched_bound hs).pending]
  exact Std.TreeSet.contains_emptyc

/-- No question is open when a program has been built. -/
theorem idle_ofSource (hs : src.LaidOut) : Idle (ofSource src) :=
  Build.after_forM (I := Idle)
    (fun f _ p hp => hp.rested (w := .nothing) (checkFile_rests not_false f p False.elim))
    (idle_linked hs)

/-- **All links of a program are made when it has been built.** -/
theorem allLinked_ofSource (hs : src.LaidOut) : AllLinked src (ofSource src) := by
  intro n
  by_cases hn : n.idx < src.nodes.size
  · obtain ⟨hf, hmem⟩ := hs.mem_nodesOf hn
    let step (p : Program) (f : FileId) : Program := Build.after (Typing.checkFile src f) p
    have hrest (f : FileId) (p : Program) : Rested .nothing p (step p f) :=
      checkFile_rests not_false f p False.elim
    have hstart (p : Program) (hp : Idle p) : Answered src n (step p (src.fileOf n)) :=
      checkFile_answered hp hmem
    change Answered src n (Build.after
      (src.fileIds.forM fun f => (Typing.checkFile src f : Build Unit)) (linked src))
    rw [Build.after_forM_eq]
    change Answered src n (src.fileIds.foldl step (linked src))
    exact foldl_of_mem (J := Idle) (I := Answered src n) hf
      (fun f _ p hp => hp.rested (hrest f p)) hstart
      (fun f _ _ p _ hp => (hrest f p).answered hp) (idle_linked hs)
  · have hkind : src.kind n = "" := by
      rw [Source.kind, Source.node_of_size_le (not_lt.mp hn)]
      rfl
    constructor <;> intro h <;> rw [hkind] at h <;> exact absurd h (by decide)

end Program
end Moniker
