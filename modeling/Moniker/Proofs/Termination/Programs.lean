/-
# What ends and what does not

Building a program and asking about its types ends, but for one thing.  Answers are never cut
off, and the searches for scopes, exports, properties and what is ambient end within bounds
that more room would not change.  The search for a signature goes round for ever where the
constraint of a type parameter leads back to it, as in
`function f<T extends T>(x: T) { x(); }`, and nowhere else (`ends_of_build`).

Checking and asking are safe (`checkFile_safe`, `typeOfNode_safe`), and a program in which all
identifiers are linked and no type is worked out is sound (`sound_linked`), so every program
that comes of it is.
-/

import Moniker.Proofs.Inquiry
import Moniker.Proofs.Lookup
import Moniker.Proofs.Termination.Depth
import Moniker.Proofs.Typing.Checked

namespace Moniker

open Program (Knows KnowsAll Retains)
open Query (Safe anything)

variable {src : Source} {p q : Program}

namespace Typing

open Query Ask

variable {c : Scene}

/-! ### Checking -/

section

variable (hs : src.LaidOut) (hc : c.nodes = src.nodes.size)
include hs hc

theorem solve_expression_safe (n? : Option NodeId) :
    Safe c p c.Sees (Ask.expression (solve src) n?) :=
  expression_safe (fun q _ p => solve_safe hs hc q p) Nat.one_pos n?

theorem solve_meaning_safe (n? : Option NodeId) : Safe c p c.Sees (Ask.meaning (solve src) n?) :=
  meaning_safe (fun q _ p => solve_safe hs hc q p) Nat.one_pos n?

theorem solve_known_safe (q : Question) : Safe c p c.Sees (Ask.known (solve src) q) :=
  known_safe (fun q _ p => solve_safe hs hc q p) (Nat.lt_succ_self _)

omit hc in
/-- The callee is looked for down the tree, so the bound is enough. -/
theorem isExternalCallee_safe {fuel : Nat} {callee : NodeId}
    (h : src.nodes.size - callee.idx < fuel) (p : Program) :
    Safe c p anything (isExternalCallee src fuel callee) := by
  induction fuel generalizing callee p with
  | zero => exact absurd h (Nat.not_lt_zero _)
  | succ fuel ih =>
    have hbelow {inner : NodeId} (hinner : inner ∈ src.children callee) (p : Program) :
        Safe c p anything (isExternalCallee src fuel inner) := by
      obtain ⟨hlt, hsize⟩ := hs.child_lt hinner
      exact ih (by omega) p
    unfold isExternalCallee
    split
    iterate 2
      split
      · next inner hinner => exact hbelow (List.mem_of_find?_eq_some hinner) p
      · exact .pure trivial
    · refine .read_bind fun _ => ?_
      split
      · exact .pure trivial
      · refine .bind (resolveAlias_safe _) fun _ _ _ _ => ?_
        split
        · exact .pure trivial
        · exact .read fun _ => trivial
    · refine .read_bind fun _ => ?_
      split
      · exact .read fun _ => trivial
      · next object hobject => exact hbelow (List.mem_of_find?_eq_some hobject) p
      · exact .pure trivial
    · exact .pure trivial

theorem checkExpression_safe (n : NodeId) : Safe c p anything (checkExpression src n) :=
  .bind (solve_expression_safe hs hc _) fun _ _ _ _ => .pure trivial

theorem linkPatternKeys_safe (pattern : NodeId) :
    Safe c p anything (linkPatternKeys src pattern) := by
  refine .bind (solve_known_safe hs hc _) fun _ _ _ _ => .forM fun part _ _ => ?_
  split
  · exact .pure trivial
  · split
    · exact .pure trivial
    · exact .bind linkMember_safe fun _ _ _ _ => .pure trivial

theorem checkNode_safe (n : NodeId) : Safe c p anything (checkNode src n) := by
  have hcheck (p : Program) : Safe c p anything (checkExpression src n) :=
    checkExpression_safe hs hc n
  unfold checkNode
  split
  iterate 4 exact hcheck p
  · refine .bind (hcheck p) fun _ _ _ _ => ?_
    split
    · exact .pure trivial
    · refine .bind (isExternalCallee_safe hs (by omega) _) fun _ _ _ _ => ?_
      split
      · split
        · exact .forM fun _ _ _ => addEffect_safe _
        · exact .pure trivial
      · exact .pure trivial
  · dsimp only
    split
    · split
      · refine .bind (solve_expression_safe hs hc _) fun _ _ _ _ => .read_bind fun _ => ?_
        split
        · exact .bind (addEffect_safe _) fun _ _ _ _ => hcheck _
        · exact hcheck _
      · exact hcheck _
    · exact hcheck _
  · split
    · exact addEffect_safe _
    · exact .pure trivial
  · exact linkPatternKeys_safe hs hc n
  iterate 3 exact .bind (solve_meaning_safe hs hc _) fun _ _ _ _ => .pure trivial
  · refine .read_bind fun _ => ?_
    split
    · exact .bind (solve_safe hs hc _ _) fun _ _ _ _ => .pure trivial
    · exact .pure trivial
  · exact .pure trivial

/-- **Checking a file is safe.** -/
theorem checkFile_safe (f : FileId) : Safe c p anything (checkFile src f) :=
  .bind (.forM fun n _ _ => checkNode_safe hs hc n) fun _ _ _ _ => .read_bind fun _ =>
    .forM fun n _ _ => checkExpression_safe hs hc n

end
end Typing

/-! ### What a user asks -/

namespace Query

open Typing (Scene Sound solve solve_safe solve_known_safe level_lt_levels levels)

variable {c : Scene} (hs : src.LaidOut) (hc : c.nodes = src.nodes.size)
include hs hc

omit hs hc in
/-- What is seen is there. -/
theorem Safe.knows {m : Query src [] TypeId} (h : Safe c p c.Sees m) : Safe c p Knows m :=
  h.imp fun _ _ ht => ht.1

theorem typeOfSymbol_safe (s : SymbolId) :
    Safe c p Knows (typeOfSymbol s : Query src [] TypeId) := (solve_known_safe hs hc _).knows

theorem declaredTypeOf_safe (s : SymbolId) :
    Safe c p KnowsAll (declaredTypeOf s : Query src [] (Option TypeId)) :=
  (solve_safe hs hc _ p).imp fun _ _ ht t htm => (ht t htm).1

theorem typeOfDeclaration_safe (n : NodeId) :
    Safe c p Knows (typeOfDeclaration n : Query src [] TypeId) :=
  (Typing.declarationType_safe (fun q _ p => solve_safe hs hc q p) (show 1 < 2 by decide) n).knows

theorem typeOfNode_safe (n : NodeId) : Safe c p Knows (typeOfNode n : Query src [] TypeId) := by
  refine .read_bind fun _ => ?_
  split
  · refine .read_bind fun _ => ?_
    split
    · refine .bind (declaredTypeOf_safe hs hc _) fun _ t? _ ht => ?_
      split
      · exact .pure (ht _ rfl)
      · exact typeOfDeclaration_safe hs hc _
    · split
      · exact typeOfSymbol_safe hs hc _
      · split
        · exact typeOfSymbol_safe hs hc _
        · exact typeOfDeclaration_safe hs hc _
  · refine .read_bind fun _ => ?_
    split
    · exact (solve_known_safe hs hc _).knows
    · split
      · exact (solve_known_safe hs hc _).knows
      · split
        · exact (solve_known_safe hs hc _).knows
        · exact (solve_known_safe hs hc _).knows

end Query

/-! ### Programs -/

namespace Program

open Typing (Scene Settled Sound Memo)

/-- The scene in which a program is checked and asked. -/
def scene (src : Source) : Scene where
  nodes := src.nodes.size
  symbols := (linked src).symbols.size
  aliasEdge := (linked src).aliasEdge
  isOpen := fun _ => false
  building := []

/-- Nothing is known of types before a program is checked. -/
theorem memory_linked (hs : src.LaidOut) :
    (linked src).memory = ({} : Program).memory ∧ (linked src).marks = (false, false) := by
  have hopened : (opened src).memory = ({} : Program).memory ∧ (opened src).marks = (false, false) := by
    unfold opened
    refine Build.after_forM
      (I := fun p => p.memory = ({} : Program).memory ∧ p.marks = (false, false))
      (fun f _ p hp => ?_) ⟨rfl, rfl⟩
    exact hp
  change (linked src).unlinked.memory = _ ∧ (linked src).unlinked.marks = _
  rw [unlinked_linked]
  change (bound src).undeclared.memory = _ ∧ (bound src).undeclared.marks = _
  rw [undeclared_bound hs]
  exact hopened

/-- Identifiers denote symbols that there are. -/
theorem referenced_lt_linked (hs : src.LaidOut) {n : NodeId} {s : SymbolId}
    (h : (linked src).referenced[n]? = some s) : s.idx < (linked src).symbols.size := by
  obtain ⟨c, -, space, hknown⟩ := knownAround_of_found? ((found_linked hs).referenced n s h)
  have hw : WellScoped (linked src) :=
    (wellScoped_bound hs).of_eq (scopes_linked src) (symbols_linked src)
  have hscope := (hw.listed (hw.known hknown.knows).1).2
  exact symbols_size_of_scope (by rw [hscope]; exact nofun)

/-- Before a program is checked aliases lead where they lead, and none has been followed. -/
theorem settled_linked (hs : src.LaidOut) : Settled (scene src) (linked src) := by
  refine ⟨le_rfl, fun s hs' => ?_, fun _ => rfl, fun s next? hnext => ?_⟩
  · rw [symbol_of_size_le hs']
    decide
  · exact nomatch (unfollowed_linked hs s).symm.trans hnext

theorem sound_linked (hs : src.LaidOut) : Sound (scene src) (linked src) := by
  obtain ⟨hmemory, hmarks⟩ := memory_linked hs
  have htypes : (linked src).types = #[] := congrArg types hmemory
  have hinfo (t : TypeId) : (linked src).typeInfo t = default := by
    rw [typeInfo, htypes]
    rfl
  have hsource : (linked src).source = src :=
    (congrArg source (unlinked_linked src)).trans (source_bound hs)
  have hpart (t u : TypeId) : ¬ (linked src).HasPart t u := by
    rw [HasPart, hinfo]
    exact List.not_mem_nil
  have hcomposite (t : TypeId) : (linked src).isComposite t ≠ true := by
    rw [isComposite, hinfo]
    exact Bool.false_ne_true
  refine ⟨settled_linked hs, by rw [hsource]; exact le_rfl, fun n s => referenced_lt_linked hs,
    fun x => ?_, List.forall_mem_nil _, fun t => ?_, fun t ht => absurd ht (hcomposite t),
    fun t ht => ?_,
    fun t ht => absurd ht (hcomposite t), fun x t ht => ?_, congrArg Prod.fst hmarks, fun h => ?_⟩
  · exact idle_linked hs x
  · rw [hinfo]
    refine ⟨List.forall_mem_nil _, List.forall_mem_nil _, List.forall_mem_nil _,
      List.forall_mem_nil _, fun u hu => ?_⟩
    cases hu
  · obtain ⟨u, hu, -⟩ := Relation.TransGen.head'_iff.mp ht
    exact hpart t u hu
  · rw [← recalled?_memory, hmemory] at ht
    rcases x with (_ | _ | _ | _ | _) | _ | _ <;> simp [recalled?, memory] at ht
  · exact absurd ((congrArg Prod.snd hmarks).symm.trans h) Bool.false_ne_true

/-- **Every program is sound when it has been built.** -/
theorem sound_ofSource (hs : src.LaidOut) : Sound (scene src) (ofSource src) :=
  Build.after_forM (I := Sound (scene src))
    (fun f _ _ hp => (Typing.checkFile_safe hs rfl f hp).1) (sound_linked hs)

/-- Sound programs stay so while a user asks. -/
theorem Asked.sound (hs : src.LaidOut) (h : Asked (ofSource src) q) : Sound (scene src) q := by
  have hask {α : Type} {V : Program → α → Prop} {p : Program}
      {question : (src : Source) → Query src [] α} (hsource : p.source = src)
      (hp : Sound (scene src) p) (hsafe : Safe (scene src) p V (question src)) :
      Sound (scene src) ((Build.ask question).after p) := by
    change Sound (scene src) ((question p.source).run p).2
    rw [hsource]
    exact (hsafe hp).1
  induction h with
  | refl => exact sound_ofSource hs
  | @tail p q hp hstep ih =>
    have hsource : p.source = src := by rw [Asked.extends hp |>.source_eq, source_ofSource hs]
    cases hstep with
    | typeOfSymbol s => exact hask hsource ih (Query.typeOfSymbol_safe hs rfl s)
    | declaredTypeOf s => exact hask hsource ih (Query.declaredTypeOf_safe hs rfl s)
    | typeOfNode n => exact hask hsource ih (Query.typeOfNode_safe hs rfl n)
    | resolveAlias s => exact hask hsource ih (Query.resolveAlias_safe s)

/-! ### Answers are types that there are -/

theorem Asked.source_eq (hs : src.LaidOut) (h : Asked (ofSource src) q) : q.source = src := by
  rw [h.extends.source_eq, source_ofSource hs]

theorem Asked.knows_typeOfSymbol (hs : src.LaidOut) (h : Asked (ofSource src) q) (s : SymbolId) :
    ((Build.typeOfSymbol s).after q).Knows ((Build.typeOfSymbol s).value q) := by
  change ((Query.typeOfSymbol s : Query q.source [] TypeId).run q).2.Knows
    ((Query.typeOfSymbol s : Query q.source [] TypeId).run q).1
  rw [h.source_eq hs]
  exact (Query.typeOfSymbol_safe hs rfl s (h.sound hs)).2.2

theorem Asked.knows_typeOfNode (hs : src.LaidOut) (h : Asked (ofSource src) q) (n : NodeId) :
    ((Build.typeOfNode n).after q).Knows ((Build.typeOfNode n).value q) := by
  change ((Query.typeOfNode n : Query q.source [] TypeId).run q).2.Knows
    ((Query.typeOfNode n : Query q.source [] TypeId).run q).1
  rw [h.source_eq hs]
  exact (Query.typeOfNode_safe hs rfl n (h.sound hs)).2.2

theorem Asked.knows_declaredTypeOf (hs : src.LaidOut) (h : Asked (ofSource src) q) (s : SymbolId) :
    ((Build.declaredTypeOf s).after q).KnowsAll ((Build.declaredTypeOf s).value q) := by
  change ((Query.declaredTypeOf s : Query q.source [] (Option TypeId)).run q).2.KnowsAll
    ((Query.declaredTypeOf s : Query q.source [] (Option TypeId)).run q).1
  rw [h.source_eq hs]
  exact (Query.declaredTypeOf_safe hs rfl s (h.sound hs)).2.2

open Relation (ReflTransGen TransGen)

/-- **What ends.** -/
structure Ends (p : Program) : Prop where
  /-- No answer has been cut off. -/
  cut : p.cut = false
  /-- What is asked next is answered with types that there are. -/
  symbol : ∀ s, ((Build.typeOfSymbol s).after p).Knows ((Build.typeOfSymbol s).value p)
  node : ∀ n, ((Build.typeOfNode n).after p).Knows ((Build.typeOfNode n).value p)
  declared : ∀ s, ((Build.declaredTypeOf s).after p).KnowsAll ((Build.declaredTypeOf s).value p)
  /-- Searches outwards from a scope, along `export *`, for properties and for what is ambient
  end: more room changes nothing. -/
  outward : ∀ c fuel, p.scopes.size < fuel → p.outwardWithin fuel c = p.outward c
  export? : ∀ m name fuel, p.modules.size < fuel →
    (p.exportWithin name fuel m []).1 = p.export? m name
  exports : ∀ m fuel, p.modules.size < fuel → (p.exportsWithin fuel m []).1 = p.exportsOf m
  namespaces : ∀ m fuel, p.modules.size < fuel →
    (p.namespaceWithin fuel m true ({}, [])).1 = p.namespaceTable m
  property : ∀ t name fuel, p.types.size < fuel →
    (p.propertyWithin name fuel t []).1 = p.property? t name
  ambient : ∀ t fuel, p.types.size < fuel → p.isAmbientWithin fuel t = p.isAmbientType t
  /-- A search for a signature has no end if and only if it turns to a type parameter from which
  it turns back to it. -/
  signature : ∀ t, p.searchSignature t = none ↔
    ∃ u, (p.typeInfo u).kind = .param ∧ ReflTransGen p.Turns t u ∧ TransGen p.Turns u u
  /-- So if one has run on, there is a type parameter whose constraint leads back to it. -/
  endless : p.endless = true → ∃ u, (p.typeInfo u).kind = .param ∧ p.Circles u

/-- **Building a program ends, and so does all that is asked of it later, but for searches for
a signature that turn back to a type parameter.** -/
theorem ends_of_build {files : List ParsedFile} (h : build files = .ok p) (hq : Asked p q) :
    q.Ends := by
  obtain ⟨src, rfl, hs⟩ := laidOut_of_build h
  have hsound := hq.sound hs
  have hscoped : WellScoped q := hq.extends.wellScoped (wellScoped_ofSource hs)
  refine ⟨hsound.cut, hq.knows_typeOfSymbol hs, hq.knows_typeOfNode hs,
    hq.knows_declaredTypeOf hs, fun c fuel => outwardWithin_eq_outward hscoped,
    fun m name fuel => exportWithin_eq_export?, fun m fuel => exportsWithin_eq_exportsOf,
    fun m fuel => namespaceWithin_eq_namespaceTable,
    fun t name fuel hfuel => propertyWithin_eq_property? hfuel,
    fun t fuel hfuel => isAmbientWithin_eq_isAmbientType hsound.layered hfuel,
    fun t => searchSignature_eq_none_iff_param hsound.layered, fun hendless => ?_⟩
  obtain ⟨t, ht⟩ := hsound.endless hendless
  exact ht.exists_param hsound.layered

/-- A function that calls a parameter of a type which is its own bound. -/
def selfBounded : ParsedFile where
  path := "bounded.ts"
  contents := "function f<T extends T>(x: T) \x7b x(); \x7d".toUTF8
  tree :=
    .node "program" "" true 0 38 [
      .node "function_declaration" "" true 0 38 [
        .node "function" "" false 0 8 [],
        .node "identifier" "name" true 9 10 [],
        .node "type_parameters" "type_parameters" true 10 23 [
          .node "type_parameter" "" true 11 22 [
            .node "type_identifier" "name" true 11 12 [],
            .node "constraint" "constraint" true 13 22 [
              .node "extends" "" false 13 20 [],
              .node "type_identifier" "" true 21 22 []]]],
        .node "formal_parameters" "parameters" true 23 29 [
          .node "required_parameter" "" true 24 28 [
            .node "identifier" "pattern" true 24 25 [],
            .node "type_annotation" "type" true 25 28 [
              .node ":" "" false 25 26 [],
              .node "type_identifier" "" true 27 28 []]]],
        .node "statement_block" "body" true 30 38 [
          .node "expression_statement" "" true 32 36 [
            .node "call_expression" "" true 32 35 [
              .node "identifier" "function" true 32 33 [],
              .node "arguments" "arguments" true 33 35 []]]]]]

theorem ends_of_build_selfBounded : ∃ p q, build [selfBounded] = .ok p ∧ Asked p q ∧ q.Ends :=
  have hasked : ∀ p, Asked p ((Build.typeOfNode ⟨18⟩).after p) := fun p => .single (.typeOfNode p ⟨18⟩)
  ⟨_, _, build_singleton selfBounded, hasked _,
    ends_of_build (build_singleton selfBounded) (hasked _)⟩

end Program
end Moniker
