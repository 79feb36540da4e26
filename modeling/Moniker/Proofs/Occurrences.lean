/-
# Occurrences are exact and do not change

The uses of a symbol are the identifiers that denote it and the keys and accesses that
denote it as a property, each of them once (`Program.Exact`).  An identifier is linked
once, since linking goes down a tree (`References.exact_linkWithin`), and a property
that a node denotes is recorded with its use (`Extends.exact`).

When a program has been built, whatever links names has been worked out.  So questions
about types find the links made and make none: what names declare and denote, the
declarations and the uses of symbols, and the places to rename stay as they are
(`Program.occurrences_frozen`).
-/

import Moniker.Program.Occurrences
import Moniker.Proofs.Allocation
import Moniker.Proofs.Links
import Moniker.Proofs.Typing.Checked

namespace Moniker
namespace Program

variable {src : Source} {p q : Program} {m n : NodeId} {s t : SymbolId}

/-! ### Exact uses -/

/-- The uses of a symbol are the identifiers and the properties that denote it, each
once. -/
def Exact (p : Program) : Prop :=
  ∀ s n, (p.references s).toList.count n =
    (if p.referenced[n]? = some s then 1 else 0) + (if p.memberAt[n]? = some s then 1 else 0)

theorem references_addUse :
    (p.addUse n t).references s = if t = s then (p.references s).push n else p.references s := by
  unfold references addUse
  rw [Table.getD_alter]
  split
  · next heq =>
    rw [if_pos (eq_of_beq heq), ← eq_of_beq heq, Option.getD_some,
      Std.TreeMap.getD_eq_getD_getElem?]
  · next hne => rw [if_neg fun heq => hne (beq_iff_eq.mpr heq)]

/-- One more use. -/
theorem count_references_addUse :
    ((p.addUse n t).references s).toList.count m =
      (p.references s).toList.count m + if n = m ∧ t = s then 1 else 0 := by
  rw [references_addUse]
  split
  · next heq =>
    rw [Array.toList_push, List.count_append, List.count_singleton]
    simp [heq, beq_iff_eq]
  · next hne => simp [hne]

theorem Exact.of_eq (h : p.Exact) (huses : q.uses = p.uses) (href : q.referenced = p.referenced)
    (hmember : q.memberAt = p.memberAt) : q.Exact := by
  intro s n
  rw [references, huses, href, hmember]
  exact h s n

/-- One more entry of a table. -/
theorem indicator_insert {table : Table NodeId SymbolId} (hn : table.contains n = false) :
    (if (table.insert n t)[m]? = some s then 1 else 0) =
      (if table[m]? = some s then 1 else 0) + if n = m ∧ t = s then 1 else 0 := by
  rw [Table.getElem?_insert]
  by_cases hnm : n = m
  · subst hnm
    have hnone : table[n]? = none := Std.TreeMap.getElem?_eq_none_of_contains_eq_false hn
    simp [hnone]
  · simp [hnm]

/-- An identifier that denotes nothing yet may come to denote a symbol. -/
theorem Exact.refer (h : p.Exact) (hn : p.referenced.contains n = false) :
    (({ p with referenced := p.referenced.insert n t } : Program).addUse n t).Exact := by
  intro s m
  have hcount := @count_references_addUse { p with referenced := p.referenced.insert n t } m n s t
  have hentry := @indicator_insert m n s t p.referenced hn
  have hold := h s m
  change _ = (if (p.referenced.insert n t)[m]? = some s then 1 else 0) +
    (if p.memberAt[m]? = some s then 1 else 0)
  change _ = (p.references s).toList.count m + _ at hcount
  omega

/-- A node that denotes no property yet may come to denote one. -/
theorem Exact.link (h : p.Exact) (hn : p.memberAt.contains n = false) :
    ((p.markMember n t).addUse n t).Exact := by
  intro s m
  have hcount := @count_references_addUse (p.markMember n t) m n s t
  have hentry := @indicator_insert m n s t p.memberAt hn
  have hold := h s m
  change _ = (if p.referenced[m]? = some s then 1 else 0) +
    (if (p.memberAt.insert n t)[m]? = some s then 1 else 0)
  change _ = (p.references s).toList.count m + _ at hcount
  omega

/-- **Working out types keeps uses exact.** -/
theorem Extends.exact (h : Extends src p q) (hp : p.Exact) : q.Exact := by
  induction h with
  | refl => exact hp
  | trans _ _ ih₁ ih₂ => exact ih₂ (ih₁ hp)
  | @types p q h =>
    refine hp.of_eq ?_ ?_ ?_
    · exact show q.facts.uses = p.facts.uses by rw [h]
    · exact show q.facts.referenced = p.facts.referenced by rw [h]
    · exact show q.facts.memberAt = p.facts.memberAt by rw [h]
  | link p n m _ hn => exact hp.link hn
  | symbol | table | members | target | member | join | declared | shape | effect =>
    exact hp.of_eq rfl rfl rfl

end Program

/-! ### Linking identifiers -/

namespace References

variable {src : Source} {p : Program} {n : NodeId} {s : ScopeId}

theorem exact_link {found : Option SymbolId} (h : p.Exact) (hn : ¬ Linked p n) :
    ((link src n s found).after p).Exact := by
  have hfresh : p.referenced.contains n = false := Bool.eq_false_iff.mpr fun hc => hn (.inl hc)
  unfold link
  simp only [Build.after_bind, Build.after_read, Build.value_read]
  split
  · exact h.of_eq rfl rfl rfl
  · exact h.refer hfresh

/-- Steps that link different nodes keep uses exact one after another. -/
theorem exact_forM {α : Type} {g : α → Build Unit} {R : α → NodeId → Prop} {xs : List α}
    (hdisjoint : xs.Pairwise fun x y => ∀ m, R x m → ¬ R y m)
    (h : ∀ x ∈ xs, ∀ q : Program, q.unlinked = p.unlinked → q.Exact → (∀ m, R x m → ¬ Linked q m) →
      ((g x).after q).Exact ∧ ((g x).after q).unlinked = q.unlinked ∧
        ∀ m, Linked ((g x).after q) m → Linked q m ∨ R x m)
    (hp : p.Exact) (hfresh : ∀ x ∈ xs, ∀ m, R x m → ¬ Linked p m) :
    ((xs.forM g).after p).Exact := by
  induction xs generalizing p with
  | nil => exact hp
  | cons x xs ih =>
    obtain ⟨hx, hxs⟩ := List.pairwise_cons.mp hdisjoint
    obtain ⟨hexact, hkept, hlinked⟩ := h x List.mem_cons_self p rfl hp (hfresh x List.mem_cons_self)
    refine @ih ((g x).after p) hxs (fun y hy q hq => ?_) hexact fun y hy m hm => ?_
    · exact h y (List.mem_cons_of_mem _ hy) q (hq.trans hkept)
    · intro hm'
      rcases hlinked m hm' with hold | hnew
      · exact hfresh y (List.mem_cons_of_mem _ hy) m hm hold
      · exact hx y hy m hnew hm

/-- **Linking keeps uses exact,** since it meets every node once. -/
theorem exact_linkWithin (hs : src.LaidOut) (hsrc : p.source = src) (fuel : Nat) (n : NodeId)
    (s : ScopeId) (hn : n.idx < src.nodes.size) (hfuel : src.nodes.size ≤ n.idx + fuel)
    (hp : p.Exact) (hfresh : ∀ m, src.Below n m → ¬ Linked p m) :
    ((linkWithin src fuel n s).after p).Exact := by
  induction fuel generalizing n s p with
  | zero => exact hp
  | succ fuel ih =>
    unfold linkWithin
    rw [Build.after_bind, Build.after_read, Build.value_read]
    split
    iterate 3
      rw [Build.after_readIf]
      split
      · rw [Build.after_bind, Build.after_read]
        exact exact_link hp (hfresh n .refl)
      · exact hp
    have hchild {c : NodeId} (hc : c ∈ (src.children n).filter src.named) : c ∈ src.children n :=
      (List.mem_filter.mp hc).1
    refine exact_forM (R := fun c m => src.Below c m) ?_ (fun c hc q hq hexact hfresh => ?_) hp
      fun c hc m hm => hfresh m (.trans (.child .refl (hchild hc)) hm)
    · -- Different children have nothing in common.
      refine ((hs.sorted n).filter _).imp_of_mem fun ha hb hlt m ham hbm => ?_
      rw [hs.sibling_eq (hchild ha) (hchild hb) ham hbm] at hlt
      exact hlt.ne rfl
    · have hq : q.source = src := (congrArg Program.source hq).trans hsrc
      have hlt := hs.child_lt (hchild hc)
      refine ⟨ih hq c _ hlt.2 (by omega) hexact hfresh, Program.unlinked_linkWithin fuel c _,
        fun m hm => ?_⟩
      rw [linked_linkWithin hs hq fuel c _ hlt.2 (by omega)] at hm
      exact hm.imp_right fun h => h.1.below

end References

namespace Program

open References (exact_forM exact_linkWithin linked_linkWithin not_linked_bound)

variable {src : Source} {p q : Program}

/-- Before linking nothing denotes anything. -/
theorem exact_bound (hs : src.LaidOut) : (bound src).Exact := by
  have huntouched := untouched_bound hs
  intro s n
  have hreferenced : (bound src).referenced[n]? = none := by
    have hn : ¬ (bound src).referenced.contains n = true := fun hc => not_linked_bound hs (.inl hc)
    exact Std.TreeMap.getElem?_eq_none_of_contains_eq_false (Bool.eq_false_iff.mpr hn)
  rw [references, huntouched.uses, huntouched.memberAt, hreferenced]
  simp

theorem exact_linked (hs : src.LaidOut) : (linked src).Exact := by
  have hsource := source_bound hs
  have hroot {f : FileId} (hf : f ∈ src.fileIds) := hs.root hf
  unfold linked
  refine exact_forM (R := fun f m => src.Below (src.file f).root m) ?_
    (fun f hf q hq hexact hfresh => ?_) (exact_bound hs) fun f hf m hm => not_linked_bound hs
  · -- A node lies in one file.
    have hnodup : src.fileIds.Nodup :=
      List.Nodup.map (fun i j h => congrArg FileId.idx h) List.nodup_range
    refine hnodup.imp_of_mem fun hf hg hne m hfm hgm => hne ?_
    calc _ = src.fileOf m := ((hfm.fileOf_eq hs).trans (hroot hf).2.2).symm
      _ = _ := (hgm.fileOf_eq hs).trans (hroot hg).2.2
  · have hq : q.source = src := (congrArg Program.source hq).trans hsource
    refine ⟨exact_linkWithin hs hq _ _ _ (hroot hf).1 (by omega) hexact hfresh, unlinked_linkFile f,
      fun m hm => ?_⟩
    have hm := (linked_linkWithin hs hq _ _ _ (hroot hf).1 (by omega)).mp hm
    exact hm.imp_right fun h => h.1.below

/-- **The uses recorded for a program are exact.** -/
theorem exact_ofSource (hs : src.LaidOut) : (ofSource src).Exact :=
  (extends_linked src).exact (exact_linked hs)

end Program

/-! ### Questions change no occurrences -/

/-- A plan asks about types and does nothing else to a program. -/
theorem planMangle_inquires (files : List FileId) (opts : MangleOptions) :
    Build.Inquires (planMangle files opts) := by
  refine .bind (analyze_inquires files _) fun analysis =>
    .bind (Allocator.allocate_inquires _ _) fun general => ?_
  split
  · exact .bind (Allocator.allocate_inquires _ _) fun hard => .pure _
  · exact .pure _

namespace Program

variable {src : Source} {p q : Program}

/-- Names declare and denote what they did, and symbols have the declarations, the uses and
the places to rename that they had. -/
structure SameOccurrences (p q : Program) : Prop where
  declared : q.declared = p.declared
  referenced : q.referenced = p.referenced
  memberAt : q.memberAt = p.memberAt
  uses : q.uses = p.uses
  decls : ∀ s : SymbolId, s.idx < p.symbols.size → (q.symbol s).decls = (p.symbol s).decls
  references : ∀ s, q.references s = p.references s
  renameLocations : ∀ s : SymbolId, s.idx < p.symbols.size →
    q.renameLocations s = p.renameLocations s

/-- Where all links are made a question makes none, and it keeps all types and answers. -/
theorem Asked.rested (h : Asked p q) (hp : Typing.AllLinked p.source p) :
    Rested (.all p.types.size) p q := by
  induction h with
  | refl => exact .refl p
  | @tail q r h hstep ih =>
    have hq : Typing.Ready q.source (.all p.types.size) q := by
      rw [(show Asked p q from h).extends.source_eq]
      exact ih.ready fun _ => ⟨hp, le_rfl⟩
    refine ih.trans ?_
    cases hstep with
    | typeOfSymbol s => exact Query.typeOfSymbol_rests s q hq
    | declaredTypeOf s => exact Query.declaredTypeOf_rests s q hq
    | typeOfNode n => exact Query.typeOfNode_rests n q hq
    | resolveAlias s => exact Query.resolveAlias_rests s q hq

theorem Asked.sameOccurrences (h : Asked p q) (hp : Typing.AllLinked p.source p) :
    SameOccurrences p q := by
  have hindex := (h.rested hp).index trivial
  have hsource := h.extends.source_eq
  have hreferenced := h.extends.referenced_eq
  have hreferences (s : SymbolId) : q.references s = p.references s := by
    rw [references, references, hindex.uses]
  refine ⟨hindex.declared, hreferenced, hindex.memberAt, hindex.uses, hindex.decls, hreferences,
    fun s hs => ?_⟩
  have hlocation : q.locationOf s = p.locationOf s := by
    funext n
    unfold locationOf
    rw [hsource, hreferenced, hindex.declared]
  have hoccurrences : q.occurrences s = p.occurrences s := by
    rw [occurrences, occurrences, hreferences, hindex.decls s hs]
    unfold nodeLe
    rw [hsource]
  rw [renameLocations, renameLocations, hoccurrences, hlocation, hsource]

/-- **Occurrences are exact and do not change.** When a program has been built, the uses of
every symbol are the nodes that denote it, each once, and so they stay, whatever is asked of
the program about types: no name comes to declare or denote anything else, and no symbol
gets or loses a declaration, a use or a place to rename. An analysis and a plan ask nothing
else. -/
theorem occurrences_frozen {files : List ParsedFile} (h : build files = .ok p) :
    (∀ q, Asked p q → q.Exact ∧ SameOccurrences p q) ∧
      ∀ q, Asked p q → ∀ files opts,
        Asked p ((analyze files opts.toSurfaceOptions).after q) ∧
          Asked p ((planMangle files opts).after q) := by
  obtain ⟨src, rfl, hs⟩ := laidOut_of_build h
  have hlinked : Typing.AllLinked (ofSource src).source (ofSource src) := by
    rw [source_ofSource hs]
    exact allLinked_ofSource hs
  refine ⟨fun q hq => ?_, fun q hq files opts => ?_⟩
  · exact ⟨hq.extends.exact (exact_ofSource hs), hq.sameOccurrences hlinked⟩
  · exact ⟨hq.trans (analyze_inquires files _ q), hq.trans (planMangle_inquires files opts q)⟩

/-- An object literal and an access to its property. -/
def point : ParsedFile where
  path := "point.ts"
  contents := "const point = { x: 1 }\npoint.x".toUTF8
  tree :=
    .node "program" "" true 0 30 [
      .node "lexical_declaration" "" true 0 22 [
        .node "variable_declarator" "" true 6 22 [
          .node "identifier" "name" true 6 11 [],
          .node "object" "value" true 14 22 [
            .node "pair" "" true 16 20 [
              .node "property_identifier" "key" true 16 17 [],
              .node "number" "value" true 19 20 []]]]],
      .node "expression_statement" "" true 23 30 [
        .node "member_expression" "" true 23 30 [
          .node "identifier" "object" true 23 28 [],
          .node "property_identifier" "property" true 29 30 []]]]

theorem occurrences_frozen_point : ∃ p, build [point] = .ok p ∧
    (∀ q, Asked p q → q.Exact ∧ SameOccurrences p q) ∧
      ∀ q, Asked p q → ∀ files opts,
        Asked p ((analyze files opts.toSurfaceOptions).after q) ∧
          Asked p ((planMangle files opts).after q) :=
  ⟨_, build_singleton point, occurrences_frozen (build_singleton point)⟩

end Program
end Moniker
