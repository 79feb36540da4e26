/-
# The depth of questions

A question about a node, or about a symbol that was there before, is opened once at most along
a chain of questions, and the others lead to such questions in a few steps, or outwards in the
tree.  `Scene.depth` puts both together: the questions that may still be opened, each with all
levels, and the level of the question asked.  It goes down with every question
(`Scene.depth_opening_lt`), and the depth that is allowed exceeds it, so answering is never
cut off there (`solve_safe`).
-/

import Mathlib.Algebra.Order.BigOperators.Group.Finset
import Moniker.Proofs.Termination.Expressions
import Moniker.Proofs.Typing.Answers

namespace Moniker

open Program (Retains)
open Query (Safe New anything)

namespace Typing

variable {c : Scene} {src : Source} {x : Pending} {q q' : Question}

/-! ### The measure -/

namespace Scene

/-- The questions about nodes, and about symbols that were there before. -/
def questions (c : Scene) (src : Source) : Finset Pending :=
  ((Finset.range c.symbols).biUnion fun i => {.valueOf ⟨i⟩, .declaredBy ⟨i⟩}) ∪
    (Finset.range src.nodes.size).biUnion fun i => {.expression ⟨i⟩, .position ⟨i⟩, .meaning ⟨i⟩}

theorem card_questions_le : (c.questions src).card ≤ c.symbols * 2 + src.nodes.size * 3 := by
  refine (Finset.card_union_le _ _).trans (Nat.add_le_add ?_ ?_)
  · refine (Finset.card_biUnion_le_card_mul _ _ 2 fun _ _ => Finset.card_le_two).trans_eq ?_
    rw [Finset.card_range]
  · refine (Finset.card_biUnion_le_card_mul _ _ 3 fun _ _ => Finset.card_le_three).trans_eq ?_
    rw [Finset.card_range]

theorem valueOf_mem_questions {s : SymbolId} (h : s.idx < c.symbols) :
    .valueOf s ∈ c.questions src :=
  Finset.mem_union_left _ (Finset.mem_biUnion.mpr
    ⟨s.idx, Finset.mem_range.mpr h, Finset.mem_insert_self _ _⟩)

theorem declaredBy_mem_questions {s : SymbolId} (h : s.idx < c.symbols) :
    .declaredBy s ∈ c.questions src :=
  Finset.mem_union_left _ (Finset.mem_biUnion.mpr
    ⟨s.idx, Finset.mem_range.mpr h, Finset.mem_insert_of_mem (Finset.mem_singleton_self _)⟩)

theorem mem_questions_of_node {n : NodeId} (h : n.idx < src.nodes.size)
    (hx : x = .expression n ∨ x = .position n ∨ x = .meaning n) : x ∈ c.questions src := by
  refine Finset.mem_union_right _ (Finset.mem_biUnion.mpr ⟨n.idx, Finset.mem_range.mpr h, ?_⟩)
  rcases hx with rfl | rfl | rfl <;> simp

/-- The questions that may still be opened. -/
def unopened (c : Scene) (src : Source) : Finset Pending :=
  (c.questions src).filter fun x => c.isOpen x = false

/-- The scene with one more open question. -/
def opening (c : Scene) (x : Pending) : Scene := { c with isOpen := fun y => x == y || c.isOpen y }

theorem unopened_opening : (c.opening x).unopened src = (c.unopened src).erase x := by
  ext y
  rw [unopened, unopened, Finset.mem_filter, Finset.mem_erase, Finset.mem_filter]
  change y ∈ c.questions src ∧ (x == y || c.isOpen y) = false ↔ _
  rw [Bool.or_eq_false_iff, beq_eq_false_iff_ne, ne_comm]
  exact and_left_comm

/-- A bound on the questions in a chain that begins with this one. -/
def depth (c : Scene) (src : Source) (q : Question) : Nat :=
  (c.unopened src).card * levels src + c.level src q

/-- The questions below this level may be asked while the question is open. -/
def reach (c : Scene) (src : Source) (x : Pending) : Nat :=
  if x ∈ c.questions src then levels src else c.level src x.question

theorem reach_of_mem (h : x ∈ c.questions src) : c.reach src x = levels src := if_pos h

theorem lt_reach {k : Nat} (hk : k < 4) (h : x ∉ c.questions src → k < c.level src x.question) :
    k < c.reach src x := by
  unfold reach
  split
  · exact hk.trans_le four_le_levels
  · next hmem => exact h hmem

theorem one_lt_reach_valueOf (s : SymbolId) : 1 < c.reach src (.valueOf s) :=
  lt_reach (by decide) fun h =>
    (show 1 < 2 by decide).trans_eq (if_neg (mt valueOf_mem_questions h)).symm

theorem zero_lt_reach_declaredBy (s : SymbolId) : 0 < c.reach src (.declaredBy s) :=
  lt_reach (by decide) fun h =>
    (show 0 < 1 by decide).trans_eq (if_neg (mt declaredBy_mem_questions h)).symm

theorem depth_opening_lt (hx : c.isOpen x = false) (hq : c.level src q < c.reach src x) :
    (c.opening x).depth src q < c.depth src x.question := by
  unfold depth
  rw [unopened_opening, show (c.opening x).level src q = c.level src q from by cases q <;> rfl]
  by_cases hmem : x ∈ c.questions src
  · rw [reach_of_mem hmem] at hq
    have hunopened : x ∈ c.unopened src := Finset.mem_filter.mpr ⟨hmem, hx⟩
    have hcard := Finset.card_erase_add_one hunopened
    calc ((c.unopened src).erase x).card * levels src + c.level src q
        < ((c.unopened src).erase x).card * levels src + levels src := Nat.add_lt_add_left hq _
      _ = (c.unopened src).card * levels src := by rw [← hcard, Nat.succ_mul]
      _ ≤ (c.unopened src).card * levels src + c.level src x.question := Nat.le_add_right ..
  · rw [reach, if_neg hmem] at hq
    exact Nat.add_lt_add_of_le_of_lt
      (Nat.mul_le_mul_right _ (Finset.card_le_card (Finset.erase_subset _ _))) hq

theorem depth_lt (hq : c.level src q' < c.level src q) : c.depth src q' < c.depth src q :=
  Nat.add_lt_add_left hq _

/-- What arrays are hidden has nothing to do with what is open. -/
theorem depth_building (b : List TypeId) :
    Scene.depth { c with building := b } src q = c.depth src q := by cases q <;> rfl

end Scene

/-! ### Answers -/

variable {ask : Ask src} {p : Program} {α : Type}

/-- A rule that is safe while its question is open is safe. -/
theorem whileOpen_safe {V : Program → α → Prop} {rule : Query src [] α}
    (hV : ∀ p q a, p.Retains q → V p a → V q a) (hx : c.isOpen x = false)
    (hrule : ∀ q, Safe (c.opening x) q V rule) : Safe c p V (whileOpen src x rule) := by
  intro hp
  let opened : Program := { p with pending := p.pending.insert x }
  have hopened : Sound (c.opening x) opened := hp.of_pending fun y => by
    rw [KeySet.contains_insert, hp.pending]
  obtain ⟨hr, hretains, ha⟩ := hrule opened hopened
  let closed : Program :=
    { (rule.run opened).2 with pending := (rule.run opened).2.pending.erase x }
  have hclosed : Sound { c with isOpen := c.isOpen } closed := hr.of_pending fun y => by
    rw [KeySet.contains_erase, hr.pending]
    change (!(x == y) && (x == y || c.isOpen y)) = c.isOpen y
    cases hxy : x == y with
    | false => rfl
    | true =>
      rw [eq_of_beq hxy] at hx
      exact hx.symm
  have hbegin : p.Retains opened := .of_types_eq rfl
  have hend : (rule.run opened).2.Retains closed := .of_types_eq rfl
  exact ⟨hclosed, (hbegin.trans hretains).trans hend, hV _ closed _ hend ha⟩

/-- What is remembered is known, an open question has no answer yet, and a rule answers any
other. -/
theorem remembered_safe {find : Program → Option TypeId} {rule : Query src [] (Option TypeId)}
    (hfind : ∀ t, find p = some t → p.recalled? (.answer x) = some t)
    (hrule : c.isOpen x = false → Safe c p c.SeesAll rule) : Safe c p c.SeesAll (do
      match ← Query.read find with
      | some t => return some t
      | none => if ← isOpen src x then return some (← Query.unknown) else rule) := by
  intro hp
  refine remembered_cases
    (I := fun r => Sound c r.2 ∧ p.Retains r.2 ∧ c.SeesAll r.2 r.1) (fun t ht => ?_)
    (fun _ => (Safe.some Query.unknown_safe) hp) fun _ hx => hrule ((hp.pending x).symm.trans hx) hp
  exact ⟨hp, .refl p, Scene.seesAll_some (hp.memos _ t (hfind t ht))⟩

theorem orUnknown_safe {t? : Option TypeId} (ht : c.SeesAll p t?) :
    Safe c p c.Sees (orUnknown src t?) := by
  cases t? with
  | some t => exact .pure (ht t rfl)
  | none => exact Query.unknown_safe

/-- The answer is remembered, then given. -/
theorem learned_safe {g : Program → Program} {hfacts : ∀ p, (g p).facts = p.facts} {t : TypeId}
    (y : Memo) (heq : g p = p.remember t y) (ht : c.Sees p t) : Safe c p c.SeesAll (do
      Query.learn g hfacts
      return some t : Query src [] (Option TypeId)) :=
  .bind (.learn y heq ht) fun _ _ hend _ => .pure (Scene.seesAll_some (ht.retained hend))

/-! ### Nodes there are not -/

section

variable {n : NodeId} (hn : src.nodes.size ≤ n.idx)
include hn

theorem kind_of_size_le : src.kind n = "" := by
  rw [Source.kind, Source.node_of_size_le hn]
  rfl

theorem annotationType_of_size_le :
    annotationType src ask n = (do return some (← Query.unknown)) := by
  have hkind := kind_of_size_le hn
  unfold annotationType
  split <;> first | exact absurd (hkind.symm.trans ‹_›) (by decide) | rfl

theorem expressionType_of_size_le :
    expressionType src ask n = (do return some (← Query.unknown)) := by
  have hkind := kind_of_size_le hn
  unfold expressionType
  split <;> first | exact absurd (hkind.symm.trans ‹_›) (by decide) | rfl

theorem positionType_of_size_le : positionType src ask n = Query.unknown := by
  unfold positionType
  rw [show src.parent n = none by rw [Source.parent, Source.node_of_size_le hn]; rfl]

end

/-! ### Every question -/

/-- **A question is answered safely if the ones below it are,** and those that its rule may ask
while it is open, whatever arrays are hidden then. -/
theorem answer_safe (hs : src.LaidOut)
    (hstay : ∀ q', c.level src q' < c.level src q → ∀ p, Safe c p c.SeesAll (ask q'))
    (hopening : ∀ x : Pending, x.question = q → c.isOpen x = false → ∀ b q',
      Scene.level { c.opening x with building := b } src q' < c.reach src x →
        ∀ p, Safe { c.opening x with building := b } p
          (Scene.SeesAll { c.opening x with building := b }) (ask q')) :
    Safe c p c.SeesAll (answer src ask q) := by
  have hall : ∀ (p q : Program) (t? : Option TypeId), p.Retains q → c.SeesAll p t? → c.SeesAll q t? :=
    fun _ _ _ hpq ht => ht.retained hpq
  have hone : ∀ (p q : Program) t, p.Retains q → c.Sees p t → c.Sees q t :=
    fun _ _ _ hpq ht => ht.retained hpq
  -- A node that is there may be asked about once, and there is no rule for others.
  have hnode {x : Pending} {n : NodeId} (hx : x = .expression n ∨ x = .position n ∨ x = .meaning n)
      (hn : ¬ src.nodes.size ≤ n.idx) : levels src ≤ c.reach src x :=
    (Scene.reach_of_mem (Scene.mem_questions_of_node (not_le.mp hn) hx)).ge
  cases q with
  | valueOf s =>
    refine remembered_safe (fun _ ht => ht) fun hx => .bind (whileOpen_safe hone hx fun q =>
      valueType_safe (hopening (.valueOf s) rfl hx _) s (Scene.one_lt_reach_valueOf s) fun hs => ?_)
      fun q t _ ht => learned_safe (.answer (.valueOf s)) rfl ht
    exact two_lt_of_levels_le (Scene.reach_of_mem (Scene.valueOf_mem_questions hs)).ge
  | declaredBy s =>
    refine remembered_safe (fun _ ht => ht) fun hx => whileOpen_safe hall hx fun q =>
      declaredType_safe (hopening (.declaredBy s) rfl hx _) s (Scene.zero_lt_reach_declaredBy s)
        fun hs => ?_
    exact (show 1 < 2 by decide).trans
      (two_lt_of_levels_le (Scene.reach_of_mem (Scene.declaredBy_mem_questions hs)).ge)
  | meaning n =>
    refine remembered_safe (fun _ ht => ht) fun hx => .bind (whileOpen_safe hall hx fun q => ?_)
      fun q t? _ ht => .bind (orUnknown_safe ht) fun _ _ _ ht =>
      learned_safe (.answer (.meaning n)) rfl ht
    by_cases hn : src.nodes.size ≤ n.idx
    · rw [annotationType_of_size_le hn]
      exact .some Query.unknown_safe
    · exact annotationType_safe (hopening (.meaning n) rfl hx _)
        (two_lt_of_levels_le (hnode (.inr (.inr rfl)) hn))
        (fun t => hopening (.meaning n) rfl hx (t :: c.building)) n
  | expression n =>
    refine remembered_safe (fun _ ht => ht) fun hx => .bind (whileOpen_safe hall hx fun q => ?_)
      fun q t? _ ht => .bind (orUnknown_safe ht) fun _ _ _ ht =>
      .bind (.learn (.answer (.expression n)) rfl ht) fun _ _ _ _ =>
      .read fun hp t ht => hp.memos (.answer (.expression n)) t ht
    by_cases hn : src.nodes.size ≤ n.idx
    · rw [expressionType_of_size_le hn]
      exact .some Query.unknown_safe
    · exact expressionType_safe (hopening (.expression n) rfl hx _) (hnode (.inl rfl) hn) n
  | position n =>
    refine remembered_safe (fun _ ht => ht) fun hx => .bind (whileOpen_safe hone hx fun q => ?_)
      fun q t _ ht => learned_safe (.answer (.position n)) rfl ht
    by_cases hn : src.nodes.size ≤ n.idx
    · rw [positionType_of_size_le hn]
      exact Query.unknown_safe
    · exact positionType_safe (hopening (.position n) rfl hx _) (hnode (.inr (.inl rfl)) hn) n
  | context n => exact contextType_safe hstay hs le_rfl
  | function n => exact .some (functionType_safe hstay (show 0 < 1 by decide) n)

/-- Answering is not cut off where the depth of the question fits. -/
theorem answerWithin_safe (hs : src.LaidOut) {fuel : Nat} (h : c.depth src q < fuel) (p : Program) :
    Safe c p c.SeesAll (answerWithin src fuel q) := by
  induction fuel generalizing c q p with
  | zero => exact absurd h (Nat.not_lt_zero _)
  | succ fuel ih =>
    refine answer_safe hs (fun q' hq' p => ih ?_ p) fun x hxq hx b q' hq' p => ih ?_ p
    · exact (Scene.depth_lt hq').trans_le (Nat.le_of_lt_succ h)
    · subst hxq
      rw [Scene.depth_building]
      exact (Scene.depth_opening_lt hx hq').trans_le (Nat.le_of_lt_succ h)

/-- **The depth that is allowed is enough for any question.** -/
theorem depth_lt_depthBound (hp : Sound c p) (hc : c.nodes = src.nodes.size) :
    c.depth src q < depthBound p := by
  have hcard : (c.unopened src).card ≤ p.symbols.size * 2 + p.source.nodes.size * 3 := by
    refine (Finset.card_filter_le _ _).trans (Scene.card_questions_le.trans ?_)
    exact Nat.add_le_add (Nat.mul_le_mul_right 2 hp.symbols_le)
      (Nat.mul_le_mul_right 3 (hc.ge.trans hp.nodes_le))
  have hlevels : levels src ≤ p.source.nodes.size + 4 :=
    Nat.add_le_add_right (hc.ge.trans hp.nodes_le) 4
  calc (c.unopened src).card * levels src + c.level src q
      < (c.unopened src).card * levels src + levels src := Nat.add_lt_add_left (level_lt_levels q) _
    _ = ((c.unopened src).card + 1) * levels src := (Nat.succ_mul ..).symm
    _ ≤ (8 * (p.source.nodes.size + p.symbols.size) + 64) * (p.source.nodes.size + 4) :=
      Nat.mul_le_mul (by omega) hlevels

theorem solve_safe (hs : src.LaidOut) (hc : c.nodes = src.nodes.size) (q : Question) (p : Program) :
    Safe c p c.SeesAll (solve src q) :=
  .read_bind fun hp => answerWithin_safe hs (depth_lt_depthBound hp hc) p

end Typing
end Moniker
