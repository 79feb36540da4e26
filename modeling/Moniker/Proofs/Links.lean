/-
# Which identifiers are looked up

Linking goes down from the root of a file through named nodes and stops at the first
identifier on its way (`Leads`).  An identifier that it meets is looked up if it
stands where a name is used (`Uses`), and then it is a reference or unresolved
(`Linked`).  No other node is (`linked_linkWithin`), and so it is for all files
together (`linked_linked`).
-/

import Moniker.Proofs.Stages

namespace Moniker
namespace References

open Program (bound linked source_bound undeclared_bound opening unlinked_linkWithin unlinked_linkFile)

variable {src : Source} {p q : Program} {a b m n : NodeId} {s : ScopeId}

/-- The node was looked up. -/
def Linked (p : Program) (n : NodeId) : Prop :=
  p.referenced.contains n = true ∨ n ∈ p.unresolved

/-- What linking looks up as the name of a value. -/
def valueKinds : List String := ["identifier", "shorthand_property_identifier"]

/-- What linking looks up as the name of a type. -/
def typeKind : String := "type_identifier"

/-- One step down the tree to a named node, from a node that is not looked up. -/
def Descends (src : Source) (a b : NodeId) : Prop :=
  src.kind a ∉ typeKind :: valueKinds ∧ b ∈ src.children a ∧ src.named b = true

/-- Linking gets from a node to another one. -/
def Leads (src : Source) (a n : NodeId) : Prop := Relation.ReflTransGen (Descends src) a n

/-- The node is a name that stands where a name is used. -/
def Uses (p : Program) (n : NodeId) : Prop :=
  (p.source.kind n ∈ valueKinds ∧ isValueUse p n = true) ∨
    (p.source.kind n = typeKind ∧ isTypeUse p n = true)

theorem Leads.eq_of_kind (hkind : src.kind a ∈ typeKind :: valueKinds) (h : Leads src a n) :
    n = a := by
  rcases Relation.ReflTransGen.cases_head h with rfl | ⟨b, hab, _⟩
  · rfl
  · exact absurd hkind hab.1

theorem leads_iff (hkind : src.kind a ∉ typeKind :: valueKinds) :
    Leads src a n ↔ n = a ∨ ∃ c ∈ (src.children a).filter src.named, Leads src c n := by
  constructor
  · intro h
    rcases Relation.ReflTransGen.cases_head h with rfl | ⟨c, hac, hcn⟩
    · exact .inl rfl
    · exact .inr ⟨c, List.mem_filter.mpr hac.2, hcn⟩
  · rintro (rfl | ⟨c, hc, hcn⟩)
    · exact .refl
    · exact .head ⟨hkind, List.mem_filter.mp hc⟩ hcn

/-- Whether a name is used does not depend on what has been linked. -/
theorem uses_congr (h : q.unlinked = p.unlinked) : Uses q n ↔ Uses p n := by
  have hq : Uses q n ↔ Uses q.unlinked n := Iff.rfl
  rw [hq, h]
  exact Iff.rfl

/-- A node that is used is there. -/
theorem Uses.lt_size (h : Uses p n) : n.idx < p.source.nodes.size := by
  have hkind : p.source.kind n ≠ "" := by
    intro h0
    simp [Uses, h0, valueKinds, typeKind] at h
  by_contra hge
  rw [Source.kind, Source.node_of_size_le (not_lt.mp hge)] at hkind
  exact hkind rfl

theorem linked_link {found : Option SymbolId} :
    Linked ((link src n s found).after p) m ↔ Linked p m ∨ m = n := by
  unfold link
  simp only [Build.after_bind, Build.after_read, Build.value_read]
  split
  · change p.referenced.contains m = true ∨ m ∈ p.unresolved.push n ↔ _
    rw [Array.mem_push, Linked, or_assoc]
  · change (p.referenced.insert n _).contains m = true ∨ m ∈ p.unresolved ↔ _
    rw [Table.contains_insert, Bool.or_eq_true, beq_iff_eq, Linked, or_assoc, or_comm, @eq_comm _ n]

/-- A name is looked up if it is used. -/
theorem linked_linkIf {use : Program → Bool} {found : Program → Option SymbolId} :
    Linked ((Build.read use >>= fun b =>
      if b = true then Build.read found >>= fun f => link src n s f else pure ()).after p) m ↔
      Linked p m ∨ (m = n ∧ use p = true) := by
  rw [Build.after_readIf]
  split
  · next huse => rw [Build.after_bind, Build.after_read, linked_link, and_iff_left huse]
  · next huse => rw [Build.after_pure, or_iff_left fun h => huse h.2]

/-- Steps that each look up what they get to do so one after another. -/
theorem linked_forM {g : α → Build Unit} {R : α → Prop} {xs : List α}
    (h : ∀ x ∈ xs, ∀ q : Program, q.unlinked = p.unlinked →
      ((g x).after q).unlinked = q.unlinked ∧
        (Linked ((g x).after q) m ↔ Linked q m ∨ (R x ∧ Uses q m))) :
    Linked ((xs.forM g).after p) m ↔ Linked p m ∨ ((∃ x ∈ xs, R x) ∧ Uses p m) := by
  induction xs generalizing p with
  | nil => simp
  | cons x xs ih =>
    obtain ⟨hkept, hlinked⟩ := h x List.mem_cons_self p rfl
    have hrest : Linked ((xs.forM g).after ((g x).after p)) m ↔ _ :=
      ih fun y hy q hq => h y (List.mem_cons_of_mem _ hy) q (hq.trans hkept)
    change Linked ((xs.forM g).after ((g x).after p)) m ↔ _
    rw [hrest, hlinked, uses_congr hkept, or_assoc, ← or_and_right]
    simp only [List.mem_cons, or_and_right, exists_or, exists_eq_left]

/-- **Linking looks up the used names that it gets to,** and no others. -/
theorem linked_linkWithin (hs : src.LaidOut) (hsrc : p.source = src) (fuel : Nat) (n : NodeId)
    (s : ScopeId) (hn : n.idx < src.nodes.size) (hfuel : src.nodes.size ≤ n.idx + fuel) :
    Linked ((linkWithin src fuel n s).after p) m ↔ Linked p m ∨ (Leads src n m ∧ Uses p m) := by
  induction fuel generalizing n s p with
  | zero => omega
  | succ fuel ih =>
    -- At a name linking goes no further.
    have hstop : ∀ use : Prop, src.kind n ∈ typeKind :: valueKinds → (Uses p n ↔ use) →
        ((m = n ∧ use) ↔ Leads src n m ∧ Uses p m) := by
      intro use hkind huse
      constructor
      · rintro ⟨rfl, h⟩
        exact ⟨.refl, huse.mpr h⟩
      · rintro ⟨hleads, h⟩
        obtain rfl := hleads.eq_of_kind hkind
        exact ⟨rfl, huse.mp h⟩
    unfold linkWithin
    rw [Build.after_bind, Build.after_read, Build.value_read]
    split
    · next hkind =>
      rw [linked_linkIf, hstop _ (by rw [hkind]; decide)]
      simp [Uses, hsrc, hkind, valueKinds, typeKind]
    · next hkind =>
      rw [linked_linkIf, hstop _ (by rw [hkind]; decide)]
      simp [Uses, hsrc, hkind, valueKinds, typeKind]
    · next hkind =>
      rw [linked_linkIf, hstop _ (by rw [hkind]; decide)]
      simp [Uses, hsrc, hkind, valueKinds, typeKind]
    · next h₁ h₂ h₃ =>
      have hkind : src.kind n ∉ typeKind :: valueKinds := by
        simp only [typeKind, valueKinds, List.mem_cons, List.not_mem_nil, or_false, not_or]
        exact ⟨h₃, h₁, h₂⟩
      rw [linked_forM (R := fun c => Leads src c m), leads_iff hkind]
      · refine or_congr_right (and_congr_left fun huse => (or_iff_right ?_).symm)
        -- A name that is used is looked up itself.
        rintro rfl
        rcases huse with ⟨hname, _⟩ | ⟨hname, _⟩ <;> rw [hsrc] at hname
        · exact hkind (List.mem_cons_of_mem _ hname)
        · exact hkind (hname ▸ List.mem_cons_self)
      · intro c hc q hq
        have hlt := hs.child_lt (List.mem_filter.mp hc).1
        refine ⟨unlinked_linkWithin fuel c _, ih ?_ c _ hlt.2 (by omega)⟩
        exact (congrArg Program.source hq).trans hsrc

/-- Linking gets to the node from the root of its file. -/
def Reached (src : Source) (n : NodeId) : Prop := Leads src (src.file (src.fileOf n)).root n

theorem Leads.below (h : Leads src a n) : src.Below a n :=
  Relation.ReflTransGen.mono (fun _ _ hstep => hstep.2.1) _ _ h

/-- Before linking no name has been looked up. -/
theorem not_linked_bound (hs : src.LaidOut) : ¬ Linked (bound src) n := by
  have hreferenced : (bound src).undeclared.referenced = {} := by
    rw [undeclared_bound hs]
    exact (opening src).referenced
  have hunresolved : (bound src).undeclared.unresolved = #[] := by
    rw [undeclared_bound hs]
    exact (opening src).unresolved
  change ¬ ((bound src).undeclared.referenced.contains n = true ∨
    n ∈ (bound src).undeclared.unresolved)
  simp [hreferenced, hunresolved]

/-- **A name is looked up if it is used and linking gets to it.** -/
theorem linked_linked (hs : src.LaidOut) :
    Linked (linked src) n ↔ Reached src n ∧ Uses (bound src) n := by
  have hsource := source_bound hs
  unfold linked
  rw [linked_forM (R := fun f => Leads src (src.file f).root n), or_iff_right (not_linked_bound hs)]
  · refine and_congr_left fun huse => ⟨?_, fun h => ?_⟩
    · rintro ⟨f, hf, h⟩
      have hfile : src.fileOf n = f := (h.below.fileOf_eq hs).trans (hs.root hf).2.2
      rwa [Reached, hfile]
    · exact ⟨_, (hs.below_root n (hsource ▸ huse.lt_size)).1, h⟩
  · intro f hf q hq
    have hq : q.source = src := (congrArg Program.source hq).trans hsource
    exact ⟨unlinked_linkFile f, linked_linkWithin hs hq _ _ _ (hs.root hf).1 (by omega)⟩

end References
end Moniker
