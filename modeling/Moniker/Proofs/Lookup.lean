/-
# What identifiers are linked to

A node stands in the scope of the nearest node around it that has one
(`Program.scopeAround`).  An identifier that is linked is linked to what is found from
there, or it is unresolved because nothing is (`Program.Found`).

Only what a scope knows is found, and scopes know no members.  The initializers of an enum
stand where the enum stands: they see what is around it, and none of its own members
(`Program.linksLexically_of_build`).
-/

import Moniker.Proofs.Binding.NameSpaces
import Moniker.Proofs.Coverage
import Moniker.Proofs.Occurrences

namespace Moniker

namespace Source

variable {src : Source} {c n : NodeId}

/-- As many steps as the number of a node lead to the root. -/
theorem ancestorsWithin_succ (hs : src.LaidOut) (fuel : Nat) (h : n.idx ≤ fuel) :
    src.ancestorsWithin (fuel + 1) n = src.ancestorsWithin fuel n := by
  induction fuel generalizing n with
  | zero =>
    unfold ancestorsWithin
    cases hparent : src.parent n with
    | none => rfl
    | some m =>
      have hlt := (hs.parent_lt hparent).1
      omega
  | succ fuel ih =>
    unfold ancestorsWithin
    cases hparent : src.parent n with
    | none => rfl
    | some m =>
      have hlt := (hs.parent_lt hparent).1
      dsimp only
      rw [ih (by omega)]

theorem ancestors_child (hs : src.LaidOut) (hc : c ∈ src.children n) :
    src.ancestors c = n :: src.ancestors n := by
  obtain ⟨hlt, hsize⟩ := hs.child_lt hc
  obtain ⟨fuel, hfuel⟩ : ∃ fuel, src.nodes.size = fuel + 1 := ⟨src.nodes.size - 1, by omega⟩
  unfold ancestors
  rw [hfuel, @ancestorsWithin_succ src n hs fuel (by omega), ancestorsWithin, hs.parent_eq hc]

theorem ancestors_of_parent_eq_none (h : src.parent n = none) : src.ancestors n = [] := by
  unfold ancestors ancestorsWithin
  split
  · rfl
  · rw [h]

end Source

namespace Program

open References (Linked Reached inExportClause link linkWithin typeKind valueKinds)

variable {src : Source} {p q : Program} {c e m n : NodeId} {s : ScopeId} {t : SymbolId}

/-- The scope a node stands in: that of the nearest node from itself outwards that has one,
else that of its file. -/
def scopeAround (p : Program) (n : NodeId) : ScopeId :=
  ((n :: p.source.ancestors n).findSome? fun a => p.scopeAt[a]?).getD
    (p.moduleOf (p.source.fileOf n)).scope

/-- What is found for a name from the scope it stands in. -/
def found? (p : Program) (n : NodeId) : Option SymbolId :=
  let s := p.scopeAround n
  let x := p.source.text n
  (if p.source.kind n = typeKind then p.lookupType? s x else p.lookupValue? s x) <|>
    if inExportClause p.source n then p.lookupType? s x else none

/-- Identifiers denote what is found, and are unresolved if nothing is. -/
structure Found (p : Program) : Prop where
  referenced : ∀ n t, p.referenced[n]? = some t → p.found? n = some t
  unresolved : ∀ n ∈ p.unresolved, p.found? n = none

/-! ### The scope around a node -/

theorem scopeAround_child (hs : p.source.LaidOut) (hc : c ∈ p.source.children n) :
    p.scopeAround c = (p.scopeAt[c]?).getD (p.scopeAround n) := by
  unfold scopeAround
  rw [Source.ancestors_child hs hc, hs.file_eq hc, List.findSome?_cons]
  cases p.scopeAt[c]? with
  | none => rfl
  | some s => rfl

theorem scopeAround_root (h : p.source.parent n = none) :
    p.scopeAround n = (p.scopeAt[n]?).getD (p.moduleOf (p.source.fileOf n)).scope := by
  unfold scopeAround
  rw [Source.ancestors_of_parent_eq_none h, List.findSome?_cons]
  cases p.scopeAt[n]? with
  | none => rfl
  | some s => rfl

/-- A node stands where one above it does if no scope begins between them. -/
theorem scopeAround_below (hs : p.source.LaidOut) (h : p.source.Below e n)
    (hopen : ∀ a, p.source.Below e a → p.source.Below a n → a ≠ e → p.scopeAt[a]? = none) :
    p.scopeAround n = p.scopeAround e := by
  induction h with
  | refl => rfl
  | @tail a b hea hb ih =>
    have hbelow : p.source.Below e b := hea.tail hb
    have hne : b ≠ e := by
      rintro rfl
      exact absurd (Source.Below.idx_le hs hea) (by have := (hs.child_lt hb).1; omega)
    rw [scopeAround_child hs hb, hopen b hbelow .refl hne, Option.getD_none]
    exact ih fun x hex hxa => hopen x hex (hxa.tail hb)

/-! ### Linking -/

theorem found?_of_eq (hsource : q.source = p.source) (hscopes : q.scopes = p.scopes)
    (hmodules : q.modules = p.modules) (hscopeAt : q.scopeAt = p.scopeAt) :
    q.scopeAround n = p.scopeAround n ∧ q.found? n = p.found? n := by
  have haround : q.scopeAround n = p.scopeAround n := by
    unfold scopeAround moduleOf
    rw [hsource, hmodules, hscopeAt]
  refine ⟨haround, ?_⟩
  simp only [found?, haround, hsource, lookupValue?_congr hscopes, lookupType?_congr hscopes]

/-- What is found does not depend on what has been linked. -/
theorem found?_congr (h : q.unlinked = p.unlinked) :
    q.scopeAround n = p.scopeAround n ∧ q.found? n = p.found? n := by
  refine found?_of_eq ?_ ?_ ?_ ?_
  · exact show q.unlinked.source = p.unlinked.source by rw [h]
  · exact show q.unlinked.scopes = p.unlinked.scopes by rw [h]
  · exact show q.unlinked.modules = p.unlinked.modules by rw [h]
  · exact show q.unlinked.scopeAt = p.unlinked.scopeAt by rw [h]

/-- What is found does not depend on types. -/
theorem Extends.found?_eq (h : Extends src p q) :
    q.scopeAround n = p.scopeAround n ∧ q.found? n = p.found? n :=
  found?_of_eq h.source_eq h.scopes_eq h.modules_eq
    (show q.frame.scopeAt = p.frame.scopeAt by rw [h.frame_eq])

/-- One more name is linked to what is found for it. -/
theorem Found.link {found : Option SymbolId} (h : p.Found)
    (hfound : (found <|> if inExportClause src n then p.lookupType? s (src.text n) else none) =
      p.found? n) : ((link src n s found).after p).Found := by
  have hkept : ∀ m, ((References.link src n s found).after p).found? m = p.found? m :=
    fun m => (found?_congr unlinked_link).2
  suffices hcases : (∀ m t, ((References.link src n s found).after p).referenced[m]? = some t →
      p.referenced[m]? = some t ∨ (m = n ∧ p.found? n = some t)) ∧
      ∀ m ∈ ((References.link src n s found).after p).unresolved,
        m ∈ p.unresolved ∨ (m = n ∧ p.found? n = none) by
    refine ⟨fun m t hm => ?_, fun m hm => ?_⟩
    · rw [hkept]
      obtain hm | ⟨rfl, hm⟩ := hcases.1 m t hm
      · exact h.referenced m t hm
      · exact hm
    · rw [hkept]
      obtain hm | ⟨rfl, hm⟩ := hcases.2 m hm
      · exact h.unresolved m hm
      · exact hm
  unfold References.link
  simp only [Build.after_bind, Build.after_read, Build.value_read]
  rw [hfound]
  cases p.found? n with
  | none =>
    refine ⟨fun m t hm => .inl hm, fun m hm => ?_⟩
    exact (Array.mem_push.mp hm).imp_right fun heq => ⟨heq, rfl⟩
  | some t =>
    refine ⟨fun m u hm => ?_, fun m hm => .inl hm⟩
    change (p.referenced.insert n t)[m]? = some u at hm
    rw [Table.getElem?_insert] at hm
    split at hm
    · next heq => exact .inr ⟨(eq_of_beq heq).symm, hm⟩
    · exact .inl hm

theorem Found.linkIf {use : Program → Bool} {found : Program → Option SymbolId} (h : p.Found)
    (hfound : (found p <|> if inExportClause src n then p.lookupType? s (src.text n) else none) =
      p.found? n) :
    ((Build.read use >>= fun b => if b = true then
      Build.read found >>= fun f => References.link src n s f else pure ()).after p).Found := by
  rw [Build.after_readIf]
  split
  · rw [Build.after_bind, Build.after_read, Build.value_read]
    exact h.link hfound
  · exact h

/-- **Linking links names to what is found for them,** from a scope that is handed down. -/
theorem Found.linkWithin (hs : src.LaidOut) (hsrc : p.source = src) (fuel : Nat) (n : NodeId)
    (s : ScopeId) (hscope : (p.scopeAt[n]?).getD s = p.scopeAround n) (h : p.Found) :
    ((linkWithin src fuel n s).after p).Found := by
  induction fuel generalizing n s p with
  | zero => exact h
  | succ fuel ih =>
    unfold References.linkWithin
    rw [Build.after_bind, Build.after_read, Build.value_read, hscope]
    split
    · next hkind =>
      have hvalue : src.kind n ≠ typeKind := by rw [hkind]; decide
      refine h.linkIf ?_
      rw [found?, hsrc, if_neg hvalue]
    · next hkind =>
      have hvalue : src.kind n ≠ typeKind := by rw [hkind]; decide
      refine h.linkIf ?_
      rw [found?, hsrc, if_neg hvalue]
    · next hkind =>
      have htype : src.kind n = typeKind := hkind
      refine h.linkIf ?_
      rw [found?, hsrc, if_pos htype]
    · refine (Build.after_forM (I := fun q => q.unlinked = p.unlinked ∧ q.Found)
        (fun c hc q hq => ?_) ⟨rfl, h⟩).2
      have haround : ∀ m, q.scopeAround m = p.scopeAround m := fun m => (found?_congr hq.1).1
      have hscopeAt : q.scopeAt = p.scopeAt :=
        show q.unlinked.scopeAt = p.unlinked.scopeAt by rw [hq.1]
      have hsource : q.source = src := (congrArg Program.source hq.1).trans hsrc
      refine ⟨(unlinked_linkWithin fuel c _).trans hq.1, ih hsource c _ ?_ hq.2⟩
      subst hsrc
      rw [haround, hscopeAt, scopeAround_child hs (List.mem_filter.mp hc).1]

/-- Before linking nothing denotes anything. -/
theorem found_bound (hs : src.LaidOut) : (bound src).Found := by
  refine ⟨fun n t hn => ?_, fun n hn => ?_⟩
  · have hlinked : Linked (bound src) n := .inl (by
      rw [Std.TreeMap.contains_eq_isSome_getElem?, hn]
      rfl)
    exact absurd hlinked (References.not_linked_bound hs)
  · exact absurd (.inr hn) (References.not_linked_bound hs)

theorem found_linked (hs : src.LaidOut) : (linked src).Found := by
  have hsource := source_bound hs
  refine (Build.after_forM (I := fun q => q.unlinked = (bound src).unlinked ∧ q.Found)
    (fun f hf q hq => ?_) ⟨rfl, found_bound hs⟩).2
  have hq' : q.source = src := (congrArg Program.source hq.1).trans hsource
  refine ⟨(unlinked_linkFile f).trans hq.1, hq.2.linkWithin hs hq' _ _ _ ?_⟩
  obtain ⟨-, hparent, hfile⟩ := hs.root hf
  rw [scopeAround_root (by rw [hq']; exact hparent), hq', hfile]

/-- **Identifiers of a program denote what is found for them.** -/
theorem found_ofSource (hs : src.LaidOut) : (ofSource src).Found := by
  have h := extends_linked src
  refine ⟨fun n t hn => ?_, fun n hn => ?_⟩
  · rw [h.found?_eq.2]
    exact (found_linked hs).referenced n t (h.referenced_eq ▸ hn)
  · rw [h.found?_eq.2]
    exact (found_linked hs).unresolved n (h.unresolved_eq ▸ hn)

theorem Found.referenced_eq (h : p.Found) (hn : Linked p n) : p.referenced[n]? = p.found? n := by
  cases hentry : p.referenced[n]? with
  | some t => exact (h.referenced n t hentry).symm
  | none =>
    obtain hn | hn := hn
    · rw [Std.TreeMap.contains_eq_isSome_getElem?, hentry] at hn
      cases hn
    · exact (h.unresolved n hn).symm

/-! ### What is found -/

/-- Before anything is declared nothing is listed, so nothing is known. -/
theorem spaceSound_opened (src : Source) : SpaceSound (opened src) := by
  have hopening := opening src
  intro c name s space hs
  have hlisted := (hopening.wellScoped.listed (hopening.wellScoped.known hs.knows).1).2
  rw [hopening.scopeless s] at hlisted
  cases hlisted

theorem spaceSound_bound (hs : src.LaidOut) : SpaceSound (bound src) :=
  (bound_of_run (I := fun p => WellScoped p ∧ SpaceSound p) hs
    ⟨(opening src).wellScoped, spaceSound_opened src⟩
    fun h hp => ⟨h.wellScoped hp.1, h.spaceSound hp.1 hp.2⟩).2

theorem spaceSound_ofSource (hs : src.LaidOut) : SpaceSound (ofSource src) := by
  have hbound := spaceSound_bound hs
  have hlinked : SpaceSound (linked src) := by
    intro c name s space hknown
    rw [scope, scopes_linked] at hknown
    have hspace := hbound c name s space hknown
    rwa [HasSpace, symbol, symbols_linked]
  exact (extends_linked src).spaceSound
    ((wellScoped_bound hs).of_eq (scopes_linked src) (symbols_linked src)) hlinked

/-- A scope around the place knows the symbol under the name that stands there. -/
def KnownAround (p : Program) (n : NodeId) (t : SymbolId) : Prop :=
  ∃ c ∈ p.outward (p.scopeAround n), ∃ space, (p.scope c).KnowsAs (p.source.text n) t space

theorem knownAround_of_found? (h : p.found? n = some t) : p.KnownAround n t := by
  have hvalue : p.lookupValue? (p.scopeAround n) (p.source.text n) = some t →
      p.KnownAround n t := by
    intro h
    obtain ⟨c, hc, hs⟩ := List.exists_of_findSome?_eq_some h
    exact ⟨c, hc, Traits.value, .value hs⟩
  have htype : p.lookupType? (p.scopeAround n) (p.source.text n) = some t →
      p.KnownAround n t := by
    intro h
    obtain ⟨c, hc, hs⟩ := List.exists_of_findSome?_eq_some h
    exact ⟨c, hc, Traits.type, .type hs⟩
  unfold found? at h
  dsimp only at h
  obtain h | ⟨-, h⟩ := (Option.orElse_eq_some _ _ _).mp h
  · split at h
    · exact htype h
    · exact hvalue h
  · split at h
    · exact htype h
    · cases h

/-- The symbol is one that names of values or types can denote. Members are not, unless
they are something else as well. -/
def Lexical (p : Program) (s : SymbolId) : Prop :=
  (p.symbol s).isAny Traits.value = true ∨ (p.symbol s).isAny Traits.type = true

/-- The node stands in the initializer of a member of the enum. -/
def Initializes (src : Source) (e n : NodeId) : Prop :=
  src.kind e = "enum_declaration" ∧ ∃ body member value, src.child? e "body" = some body ∧
    member ∈ src.namedChildren body ∧ src.kind member = "enum_assignment" ∧
    src.child? member "value" = some value ∧ src.Below value n

theorem Initializes.below (h : Initializes src e n) : src.Below e n := by
  obtain ⟨-, body, member, value, hbody, hmember, -, hvalue, hn⟩ := h
  exact (((Source.Below.refl.child? hbody).namedChild hmember).child? hvalue).trans hn

/-- **How identifiers are linked.** -/
structure LinksLexically (p : Program) : Prop where
  /-- They denote what is found from where they stand, or are unresolved. -/
  found : ∀ n, Linked p n →
    p.referenced[n]? = p.found? n ∧ (n ∈ p.unresolved ↔ p.found? n = none)
  /-- What they denote belongs to a scope around them and is no mere member. -/
  lexical : ∀ n t, p.referenced[n]? = some t → p.Lexical t ∧ ∃ c ∈ p.outward (p.scopeAround n),
    t ∈ (p.scope c).symbols ∧ (p.symbol t).scope = some c ∧ (p.symbol t).name = p.source.text n
  /-- Those in an initializer of an enum see what is around the enum, if no scope begins
  between. -/
  initializer : ∀ e n, Initializes p.source e n → p.source.kind n = "identifier" →
    inExportClause p.source n = false → Reached p.source n → ¬ p.LeftOut n →
    p.declared.contains n = false →
    (∀ a, p.source.Below e a → p.source.Below a n → a ≠ e → p.scopeAt[a]? = none) →
    p.referenced[n]? = p.lookupValue? (p.scopeAround e) (p.source.text n)
  /-- So no identifier is an occurrence of a mere member, unless it declares the member or is
  linked as a property. -/
  member : ∀ n m, ¬ p.Lexical m → n ∈ p.occurrences m →
    n ∈ (p.symbol m).decls ∨ p.memberAt[n]? = some m

theorem mem_occurrences (h : p.Exact) : n ∈ p.occurrences t ↔
    n ∈ (p.symbol t).decls ∨ p.referenced[n]? = some t ∨ p.memberAt[n]? = some t := by
  have hcount := h t n
  have huses : n ∈ (p.references t).toList ↔
      p.referenced[n]? = some t ∨ p.memberAt[n]? = some t := by
    rw [← List.count_pos_iff, hcount]
    split <;> split <;> simp_all
  rw [occurrences, List.mem_mergeSort, List.mem_eraseDups, List.mem_append, huses]

/-- **A program that has been built links identifiers to what is found around them.** -/
theorem linksLexically_of_build {files : List ParsedFile} (h : build files = .ok p) :
    p.LinksLexically := by
  obtain ⟨src, rfl, hs⟩ := laidOut_of_build h
  have hsource := source_ofSource hs
  have hfound := found_ofSource hs
  have hw := wellScoped_ofSource hs
  have hlexical : ∀ n t, (ofSource src).referenced[n]? = some t → (ofSource src).Lexical t ∧
      (ofSource src).KnownAround n t := by
    intro n t hn
    obtain ⟨c, hc, space, hknown⟩ := knownAround_of_found? (hfound.referenced n t hn)
    have hspace := (spaceSound_ofSource hs c _ t space hknown).2
    refine ⟨?_, c, hc, space, hknown⟩
    cases hknown with
    | value => exact .inl hspace
    | type => exact .inr hspace
  refine ⟨fun n hn => ⟨hfound.referenced_eq hn, hfound.unresolved n, fun hnone => ?_⟩,
    fun n t hn => ?_, fun e n hinit hkind hexport hreached hleft hdeclared hopen => ?_,
    fun n m hm hn => ?_⟩
  · obtain hn | hn := hn
    · rw [Std.TreeMap.contains_eq_isSome_getElem?, Option.isSome_iff_exists] at hn
      obtain ⟨t, hn⟩ := hn
      rw [hfound.referenced n t hn] at hnone
      cases hnone
    · exact hn
  · obtain ⟨hlex, c, hc, space, hknown⟩ := hlexical n t hn
    obtain ⟨hlisted, hname⟩ := hw.known hknown.knows
    exact ⟨hlex, c, hc, hlisted, (hw.listed hlisted).2, hname⟩
  · have hlaid : (ofSource src).source.LaidOut := by rwa [hsource]
    have hname : src.kind n ∈ nameKinds := by
      rw [← hsource, hkind]
      decide
    have hindexed := (indexed_ofSource hs).mpr (.inr ⟨hsource ▸ hreached, hname, hleft⟩)
    have hlinked : Linked (ofSource src) n := hindexed.resolve_left (by rw [hdeclared]; decide)
    have hvalue : (ofSource src).source.kind n ≠ typeKind := by rw [hkind]; decide
    rw [hfound.referenced_eq hlinked, found?, if_neg hvalue, hexport,
      scopeAround_below hlaid hinit.below hopen]
    simp
  · obtain hn | hn | hn := (mem_occurrences (exact_ofSource hs)).mp hn
    · exact .inl hn
    · exact absurd (hlexical n m hn).1 hm
    · exact .inr hn

/-- An enum whose second member refers to the first one. -/
def twoMembers : ParsedFile where
  path := "level.ts"
  contents := "enum Level { low = 1, high = low }".toUTF8
  tree :=
    .node "program" "" true 0 34 [
      .node "enum_declaration" "" true 0 34 [
        .node "enum" "" false 0 4 [],
        .node "identifier" "name" true 5 10 [],
        .node "enum_body" "body" true 11 34 [
          .node "enum_assignment" "" true 13 20 [
            .node "property_identifier" "name" true 13 16 [],
            .node "number" "value" true 19 20 []],
          .node "enum_assignment" "" true 22 32 [
            .node "property_identifier" "name" true 22 26 [],
            .node "identifier" "value" true 29 32 []]]]]

theorem linksLexically_of_build_twoMembers : ∃ p, build [twoMembers] = .ok p ∧ p.LinksLexically :=
  ⟨_, build_singleton twoMembers, linksLexically_of_build (build_singleton twoMembers)⟩

end Program
end Moniker
