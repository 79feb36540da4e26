/-
# Printing a type comes to an end

The text of a type is made of the texts of its parts, and a type is ambient if a part is.  Neither
search remembers where it has been.  It ends because no type is a part of its own parts, however
types have come to be (`Typing.Sound.acyclic`): the types below a part are fewer than those below
the whole (`rank_lt`).  So the parts of parts end after as many levels as there are types, and more
room changes neither text nor ambience (`Printable`).
-/

import Moniker.Proofs.Termination.Programs

namespace Moniker
namespace Program

open Relation (TransGen)
open Typing (Scene Sound)

variable {p q : Program} {t u : TypeId} {c : Scene}

/-- **What is made of parts can be taken apart.** -/
structure Printable (p : Program) : Prop where
  /-- No type is a part of its own parts. -/
  acyclic : ∀ t, ¬ TransGen p.HasPart t t
  /-- So there is an end to the parts of parts. -/
  wellFounded : WellFounded fun u t => p.HasPart t u
  /-- Unions and intersections are made of different parts, none of which would have been taken
  apart, and of two at least if they are made of parts. -/
  composed : ∀ t, p.isComposite t = true → p.Composes (p.typeInfo t)
  /-- The text of a type and what is ambient are found out within the room there is. -/
  text : ∀ t fuel, p.types.size < fuel → p.typeTextWithin fuel t = p.typeText t
  ambient : ∀ t fuel, p.types.size < fuel → p.isAmbientWithin fuel t = p.isAmbientType t

/-! ### Ranks -/

open Classical in
/-- The types below a type: its parts, their parts, and so on. -/
noncomputable def below (p : Program) (t : TypeId) : Finset ℕ :=
  (Finset.range p.types.size).filter fun i => TransGen p.HasPart t ⟨i⟩

/-- The number of types below a type. -/
noncomputable def rank (p : Program) (t : TypeId) : ℕ := (p.below t).card

open Classical in
theorem mem_below {i : ℕ} : i ∈ p.below t ↔ i < p.types.size ∧ TransGen p.HasPart t ⟨i⟩ := by
  rw [below, Finset.mem_filter, Finset.mem_range]

theorem rank_le : p.rank t ≤ p.types.size := by
  have hsubset : p.below t ⊆ Finset.range p.types.size :=
    fun i hi => Finset.mem_range.mpr (mem_below.mp hi).1
  exact (Finset.card_le_card hsubset).trans_eq (Finset.card_range _)

/-- There is less below a part than below the whole: the part itself is missing. -/
theorem rank_lt (hp : Sound c p) (h : p.HasPart t u) : p.rank u < p.rank t := by
  have hsubset : p.below u ⊆ p.below t := by
    intro i hi
    obtain ⟨hlt, hbelow⟩ := mem_below.mp hi
    exact mem_below.mpr ⟨hlt, .head h hbelow⟩
  refine Finset.card_lt_card ((Finset.ssubset_iff_of_subset hsubset).mpr ⟨u.idx, ?_, ?_⟩)
  · exact mem_below.mpr ⟨((hp.infos t).parts u h).1, .single h⟩
  · exact fun hself => hp.acyclic u (mem_below.mp hself).2

/-- More room than there are types below a type does not change its text. -/
theorem typeTextWithin_eq_of_rank (hp : Sound c p) {fuel fuel' : ℕ} (h : p.rank t < fuel)
    (h' : p.rank t < fuel') : p.typeTextWithin fuel t = p.typeTextWithin fuel' t := by
  induction fuel generalizing fuel' t with
  | zero => exact absurd h (Nat.not_lt_zero _)
  | succ fuel ih =>
    obtain ⟨fuel', rfl⟩ := Nat.exists_eq_succ_of_ne_zero (Nat.ne_zero_of_lt h')
    have htexts : ∀ u ∈ (p.typeInfo t).parts,
        p.typeTextWithin fuel u = p.typeTextWithin fuel' u := by
      intro u hu
      have hlt := rank_lt hp hu
      exact ih (hlt.trans_le (Nat.le_of_lt_succ h)) (hlt.trans_le (Nat.le_of_lt_succ h'))
    unfold typeTextWithin
    dsimp only
    split
    · rfl
    · rw [List.map_congr_left htexts]
    · rw [List.map_congr_left htexts]
    · split
      · next element heq => rw [htexts element (heq ▸ List.mem_cons_self)]
      · rfl
    · rfl
    · rfl

/-- **Whatever has been asked of a program, its types are made of parts without circles,** so
printing one comes to an end. -/
theorem printable_of_build {files : List ParsedFile} (h : build files = .ok p) (hq : Asked p q) :
    q.Printable := by
  obtain ⟨src, rfl, hs⟩ := laidOut_of_build h
  have hsound := hq.sound hs
  refine ⟨hsound.acyclic, ?_, hsound.composed, fun t fuel hfuel => ?_, fun t fuel hfuel =>
    isAmbientWithin_eq_isAmbientType hsound.layered hfuel⟩
  · exact Subrelation.wf (rank_lt hsound) (measure q.rank).wf
  · exact typeTextWithin_eq_of_rank hsound (rank_le.trans_lt hfuel) (Nat.lt_succ_of_le rank_le)

/-- An alias that leads to a list of itself. -/
def recursiveAlias : ParsedFile where
  path := "tree.ts"
  contents := "type A = B | A[];".toUTF8
  tree :=
    .node "program" "" true 0 17 [
      .node "type_alias_declaration" "" true 0 17 [
        .node "type" "" false 0 4 [],
        .node "type_identifier" "name" true 5 6 [],
        .node "union_type" "value" true 9 16 [
          .node "type_identifier" "" true 9 10 [],
          .node "array_type" "" true 13 16 [.node "type_identifier" "" true 13 14 []]]]]

theorem printable_of_build_recursiveAlias :
    ∃ p q, build [recursiveAlias] = .ok p ∧ Asked p q ∧ q.Printable :=
  have hasked : ∀ p, Asked p ((Build.typeOfNode ⟨4⟩).after p) := fun p => .single (.typeOfNode p ⟨4⟩)
  ⟨_, _, build_singleton recursiveAlias, hasked _,
    printable_of_build (build_singleton recursiveAlias) (hasked _)⟩

end Program
end Moniker
