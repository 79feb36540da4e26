/-
# Two symbols at one node

A node may declare one symbol, refer to another and denote a third as a property.  Where a
symbol is declared no property is denoted and nothing is referred to, and where a property is
denoted nothing is referred to; shorthand properties are the only exceptions, as they are key
and value at once.  An identifier of an object is a key that refers to its value
(`Source.shorthand_of_declares_refers`, `Source.shorthand_of_refers_accesses`), one of a pattern
is a key that declares its value (`Source.pattern_of_declares_accesses`).

So where two renamed symbols have an occurrence in common, one of them is written as the key
and the other as the value (`Program.complements_of_standsFor`).
-/

import Moniker.Proofs.Compatibility
import Moniker.Proofs.LiteralNames
import Moniker.Proofs.Spelling

namespace Moniker

open References (Linked Uses isValueUse isTypeUse valueKinds typeKind)

/-! ### Places of declarations -/

namespace Source

variable {src : Source} {n o : NodeId} {traits : Traits}

/-- The kinds of nodes that have a name as a child where it is declared. -/
def declaringKinds : List String :=
  namingKinds ++ namespaceKinds ++ functionKinds ++ memberKinds ++ patternHolders ++
    ["nested_identifier", "infer_type", "formal_parameters", "enum_body", "enum_assignment"]

/-- What is known of a name that is declared and of its parent. -/
structure DeclaredBelow (src : Source) (o n : NodeId) : Prop where
  child : n ∈ src.children o
  kind : src.kind o ∈ declaringKinds
  /-- Methods declare their own names only in classes. -/
  method : src.kind o = "method_definition" →
    src.field n = "parameter" ∨ ∃ body, o ∈ src.children body ∧ src.kind body = "class_body"
  /-- Pairs of patterns declare only names that patterns bind. -/
  pair : src.kind o = "pair_pattern" → src.kind n ∈ bindingNames

theorem DeclaredBelow.of_kind {kinds : List String} (hmem : n ∈ src.children o)
    (hkind : src.kind o ∈ kinds)
    (hkinds : ∀ k ∈ kinds, k ∈ declaringKinds ∧ k ≠ "method_definition" ∧ k ≠ "pair_pattern") :
    src.DeclaredBelow o n where
  child := hmem
  kind := (hkinds _ hkind).1
  method h := absurd h (hkinds _ hkind).2.1
  pair h := absurd h (hkinds _ hkind).2.2

theorem Lexical.exists_declaredBelow (h : src.Lexical traits n) (hp : src.Phrased) :
    ∃ o, src.DeclaredBelow o n := by
  cases h with
  | name o _ hkind hname | namespace_ o _ hkind hname =>
    exact ⟨o, .of_kind (mem_children_of_child? hname) hkind (by decide)⟩
  | head o _ hkind hmem | inferred o _ hkind hmem =>
    exact ⟨o, .of_kind hmem (List.mem_singleton.mpr hkind) (by decide)⟩
  | parameter o _ hkind hmem hfield =>
    have hfunction : ∀ k ∈ functionKinds, k ∈ declaringKinds ∧ k ≠ "pair_pattern" := by decide
    exact ⟨o, hmem, (hfunction _ hkind).1, fun _ => .inl hfield, fun h => absurd h (hfunction _ hkind).2⟩
  | pattern _ hholds hbinding =>
    obtain ⟨o, hmem, hkind⟩ := hholds
    have hholder : ∀ k ∈ "formal_parameters" :: patternHolders,
        k ∈ declaringKinds ∧ k ≠ "method_definition" := by decide
    have hkind := hholder (src.kind o) <| hkind.elim (List.mem_cons_of_mem _) fun hfield =>
      hp.parameters o hfield ▸ List.mem_cons_self
    exact ⟨o, hmem, hkind.1, fun h => absurd h hkind.2, fun _ => hbinding⟩

theorem MemberName.exists_declaredBelow (h : src.MemberName n) (hp : src.Phrased) :
    ∃ o, src.DeclaredBelow o n := by
  cases h with
  | member o _ hkind hmem => exact ⟨o, .of_kind hmem hkind (by decide)⟩
  | method cls body o _ hcls hbody hmethod hkind hmem =>
    refine ⟨o, hmem, by rw [hkind]; decide, fun _ => .inr ⟨body, hmethod, ?_⟩, fun h => ?_⟩
    · exact hp.classBody cls body hcls hbody
    · exact absurd (hkind.symm.trans h) (by decide)
  | enumerator o body _ hkind hbody hmem =>
    have hbody := hp.enumBody o body hkind hbody
    exact ⟨body, .of_kind hmem (List.mem_singleton.mpr hbody) (by decide)⟩
  | assigned o _ hkind hname =>
    exact ⟨o, .of_kind (mem_children_of_child? hname) (List.mem_singleton.mpr hkind) (by decide)⟩

/-- The node is where a name is declared, in a scope or as a member. -/
def Declaring (src : Source) (n : NodeId) : Prop :=
  (∃ traits, src.Lexical traits n) ∨ src.MemberName n

/-- **Names are declared below nodes of certain kinds.** -/
theorem Declaring.exists_declaredBelow (h : src.Declaring n) (hp : src.Phrased) :
    ∃ o, src.DeclaredBelow o n :=
  h.elim (fun ⟨_, h⟩ => h.exists_declaredBelow hp) fun h => h.exists_declaredBelow hp

/-- **Where a symbol is declared a property is denoted only by a shorthand name of a pattern.** -/
theorem pattern_of_declares_accesses (hs : src.LaidOut) (hp : src.Phrased) (hd : src.Declaring n)
    (hm : src.IsMemberUse n) : src.kind n = "shorthand_property_identifier_pattern" := by
  obtain ⟨o, ho⟩ := hd.exists_declaredBelow hp
  have hbelow {o' : NodeId} (hmem : n ∈ src.children o') : src.DeclaredBelow o' n := by
    rwa [Option.some.inj ((hs.parent_eq hmem).symm.trans (hs.parent_eq ho.child))]
  have hdeclaring {o' : NodeId} {kind : String} (hmem : n ∈ src.children o')
      (hkind : src.kind o' = kind) : kind ∈ declaringKinds := hkind ▸ (hbelow hmem).kind
  cases hm with
  | part _ hpart => exact hpart
  | access o' _ hkind hchild | qualified o' _ hkind hchild =>
    exact absurd (hdeclaring (mem_children_of_child? hchild) hkind) (by decide)
  | index o' _ hkind hchild =>
    exact absurd (hdeclaring (mem_children_of_child? hchild) hkind) (by decide)
  | lookup o' _ hkind hmem =>
    rcases hkind with hkind | hkind <;> exact absurd (hdeclaring hmem hkind) (by decide)
  | pairPart o' _ hkind hchild =>
    have hbinding := (hbelow (mem_children_of_child? hchild)).pair hkind
    rw [bindingNames, List.mem_cons, List.mem_singleton] at hbinding
    exact hbinding.resolve_left (hp.properties n (.pairPart o' n hkind hchild)).1
  | literal _ hliteral =>
    cases hliteral with
    | shorthand o' _ hkind hmem => exact absurd (hdeclaring hmem hkind) (by decide)
    | pair _ o' _ _ _ hkind hchild =>
      exact absurd (hdeclaring (mem_children_of_child? hchild) hkind) (by decide)
    | method object o' _ hobject hmethod hkind hchild =>
      rcases (hbelow (mem_children_of_child? hchild)).method hkind with hfield | ⟨body, hbody, hclass⟩
      · exact absurd ((field_of_child? hchild).symm.trans hfield) (by decide)
      · have hsame : object = body :=
          Option.some.inj ((hs.parent_eq hmethod).symm.trans (hs.parent_eq hbody))
        rw [hsame, hclass] at hobject
        exact absurd hobject (by decide)

end Source

/-! ### Uses of names -/

namespace Program

variable {src : Source} {p : Program} {n : NodeId} {s t : SymbolId}

/-- A reference stands where a name is used. -/
theorem uses_of_referenced (hs : src.LaidOut) (h : (ofSource src).referenced[n]? = some t) :
    Uses (bound src) n := by
  refine ((References.linked_linked hs).mp (.inl ?_)).2
  rw [← (extends_linked src).referenced_eq, Std.TreeMap.contains_eq_isSome_getElem?, h]
  rfl

/-- **What declares one symbol refers to another only as a shorthand name of an object.** -/
theorem shorthand_of_declares_refers (hs : src.LaidOut) (hp : src.Phrased) (hn : src.Declaring n)
    (hd : (bound src).declared.contains n = true)
    (hr : (ofSource src).referenced[n]? = some t) : src.kind n = "shorthand_property_identifier" := by
  have hsource := source_bound hs
  obtain ⟨o, ho⟩ := hn.exists_declaredBelow hp
  have hdeclaring {kind : String} (hkind : src.kind o = kind) : kind ∈ Source.declaringKinds :=
    hkind ▸ ho.kind
  rcases uses_of_referenced hs hr with ⟨-, huse⟩ | ⟨-, huse⟩
  · unfold isValueUse at huse
    simp only [hsource, hs.parent_eq ho.child, hd, Bool.true_and] at huse
    split at huse
    · next hkind => exact absurd (hdeclaring hkind) (by decide)
    iterate 7 exact absurd huse Bool.false_ne_true
    iterate 3 next hkind => exact absurd (hdeclaring hkind) (by decide)
    · simpa using huse
  · unfold isTypeUse at huse
    simp [hd] at huse

/-- **What refers to one symbol denotes another as a property only as a shorthand name of an
object.** -/
theorem shorthand_of_refers_accesses (hs : src.LaidOut) (hp : src.Phrased)
    (hr : (ofSource src).referenced[n]? = some t) (hm : src.IsMemberUse n) :
    src.kind n = "shorthand_property_identifier" := by
  have hsource := source_bound hs
  obtain ⟨hvalue, htype⟩ := hp.properties n hm
  rcases uses_of_referenced hs hr with ⟨hkind, -⟩ | ⟨hkind, huse⟩
  · rw [hsource, valueKinds, List.mem_cons, List.mem_singleton] at hkind
    exact hkind.resolve_left hvalue
  · rw [hsource] at hkind
    obtain ⟨o, ho, hname⟩ := htype hkind
    have hparent := hs.parent_eq (Source.mem_children_of_child? hname)
    have hfield := Source.field_of_child? hname
    unfold isTypeUse at huse
    simp [hsource, hparent, ho, hfield] at huse

end Program

/-! ### Locations -/

namespace Program

variable {p : Program} {n : NodeId} {s t : SymbolId}

/-- Whatever is written at a bare name is written over all of it. -/
theorem locationOf_bare (h : p.source.kind n ≠ "string") :
    (p.locationOf s n).start = p.source.start n ∧ (p.locationOf s n).stop = p.source.stop n ∧
      (p.locationOf s n).kind ≠ .stringKey := by
  unfold locationOf
  dsimp only
  split
  · split <;> exact ⟨rfl, rfl, nofun⟩
  · split <;> exact ⟨rfl, rfl, nofun⟩
  · next hstring => exact absurd hstring h
  · exact ⟨rfl, rfl, nofun⟩
  · repeat' split
    all_goals exact ⟨rfl, rfl, nofun⟩

/-- In a string the quotes stay, if there is room for them. -/
theorem locationOf_string (h : p.source.kind n = "string") :
    (p.locationOf s n).kind = .stringKey ∧
      ((p.locationOf s n).start = p.source.start n ∧ (p.locationOf s n).stop = p.source.stop n ∨
        2 ≤ (p.source.bytes n).size ∧ (p.locationOf s n).start = p.source.start n + 1 ∧
          (p.locationOf s n).stop = p.source.stop n - 1) := by
  unfold locationOf
  simp only [h]
  split
  · next hsize => exact ⟨rfl, .inr ⟨hsize, rfl, rfl⟩⟩
  · exact ⟨rfl, .inl ⟨rfl, rfl⟩⟩

@[simp] theorem locationOf_file : (p.locationOf s n).file = p.source.pathOf n := by
  unfold locationOf
  dsimp only
  repeat' split
  all_goals rfl

/-- **A location lies in its name,** and begins in it. -/
theorem locationOf_bounds (h : p.source.start n < p.source.stop n) :
    p.source.start n ≤ (p.locationOf s n).start ∧ (p.locationOf s n).start < p.source.stop n ∧
      (p.locationOf s n).start ≤ (p.locationOf s n).stop ∧
      (p.locationOf s n).stop ≤ p.source.stop n := by
  by_cases hkind : p.source.kind n = "string"
  · have hsize : (p.source.bytes n).size ≤ p.source.stop n - p.source.start n := by
      rw [Source.bytes, Text.slice, ByteArray.size_extract]
      exact Nat.sub_le_sub_right (Nat.min_le_left _ _) _
    obtain ⟨-, ⟨hstart, hstop⟩ | ⟨hroom, hstart, hstop⟩⟩ := @locationOf_string p n s hkind
    · omega
    · omega
  · obtain ⟨hstart, hstop, -⟩ := @locationOf_bare p n s hkind
    omega

theorem kind_locationOf_object (h : p.source.kind n = "shorthand_property_identifier") :
    (p.locationOf s n).kind =
      if p.referenced[n]? = some s then .shorthandValue else .shorthandKey := by
  unfold locationOf
  simp only [h, beq_iff_eq]
  split <;> rfl

theorem kind_locationOf_pattern (h : p.source.kind n = "shorthand_property_identifier_pattern") :
    (p.locationOf s n).kind = if p.declared[n]? = some s then .shorthandValue else .shorthandKey := by
  unfold locationOf
  simp only [h, beq_iff_eq]
  split <;> rfl

/-- An identifier of an object is written as the value for what it refers to. -/
theorem complements_of_referenced (hkind : p.source.kind n = "shorthand_property_identifier")
    (hr : p.referenced[n]? = some t) (hne : s ≠ t) :
    (p.locationOf s n).kind.Complements (p.locationOf t n).kind := by
  have hother : p.referenced[n]? ≠ some s := fun h => hne (Option.some.inj (h.symm.trans hr))
  rw [kind_locationOf_object hkind, kind_locationOf_object hkind, if_pos hr, if_neg hother]
  exact .inl ⟨rfl, rfl⟩

/-- An identifier of a pattern is written as the value for what it declares. -/
theorem complements_of_declared
    (hkind : p.source.kind n = "shorthand_property_identifier_pattern")
    (hd : p.declared[n]? = some t) (hne : s ≠ t) :
    (p.locationOf s n).kind.Complements (p.locationOf t n).kind := by
  have hother : p.declared[n]? ≠ some s := fun h => hne (Option.some.inj (h.symm.trans hd))
  rw [kind_locationOf_pattern hkind, kind_locationOf_pattern hkind, if_pos hd, if_neg hother]
  exact .inl ⟨rfl, rfl⟩

end Program

/-! ### Renamed symbols -/

namespace Program

variable {src : Source} {n : NodeId} {s t : SymbolId} {sel : List FileId} {opts : MangleOptions}

/-- What is to be renamed is declared before types are worked out, in a scope or as a member. -/
theorem declaring_of_renames (hs : src.LaidOut) (hsel : ∀ f ∈ sel, f ∈ src.fileIds)
    (h : ((planMangle sel opts).value (ofSource src)).Renames s)
    (hn : n ∈ ((ofSource src).symbol s).decls) (hd : (ofSource src).declared[n]? = some s) :
    src.Declaring n ∧ (bound src).declared.contains n = true := by
  obtain ⟨-, -, -, hliteral⟩ := ManglePlan.declared_of_renames hs hsel h
  refine ⟨(ManglePlan.place_of_renames hs hsel h hn).imp (⟨_, ·⟩) And.left, ?_⟩
  have hlinked := ((extends_linked src).declared_literal hd).resolve_right fun h => hliteral h.2
  rw [← declared_linked, Std.TreeMap.contains_eq_isSome_getElem?, hlinked]
  rfl

theorem isAlias_of_renames {files : List ParsedFile} {p : Program} (hbuild : build files = .ok p)
    (hsel : ∀ f ∈ sel, f ∈ p.source.fileIds) (hs : ((planMangle sel opts).value p).Renames s) :
    (p.symbol s).isAlias = false := by
  obtain ⟨src, rfl, hlaid⟩ := laidOut_of_build hbuild
  rw [source_ofSource hlaid] at hsel
  exact (ManglePlan.declared_of_renames hlaid hsel hs).2.1

/-- **Two renamed symbols share only shorthand properties,** one as the key and the other as the
value. -/
theorem complements_of_standsFor {files : List ParsedFile} {p : Program}
    (hbuild : build files = .ok p) (hshape : p.ParserShaped)
    (hsel : ∀ f ∈ sel, f ∈ p.source.fileIds) (hs : ((planMangle sel opts).value p).Renames s)
    (ht : ((planMangle sel opts).value p).Renames t) (hsn : p.StandsFor n s)
    (htn : p.StandsFor n t) (hne : s ≠ t) :
    (p.locationOf s n).kind.Complements (p.locationOf t n).kind := by
  obtain ⟨src, rfl, hlaid⟩ := laidOut_of_build hbuild
  have hsource := source_ofSource hlaid
  have hphrased : src.Phrased := hsource ▸ hshape.phrased
  rw [hsource] at hsel
  have hdeclares {x : SymbolId} (hx : ((planMangle sel opts).value (ofSource src)).Renames x)
      (hd : (ofSource src).declared[n]? = some x) :
      src.Declaring n ∧ (bound src).declared.contains n = true :=
    declaring_of_renames hlaid hsel hx (declares_ofSource hlaid hd).mem hd
  -- What is declared here comes first, then what is referred to.
  have hrefers {x y : SymbolId} (hx : ((planMangle sel opts).value (ofSource src)).Renames x)
      (hd : (ofSource src).declared[n]? = some x) (hr : (ofSource src).referenced[n]? = some y)
      (hxy : x ≠ y) : ((ofSource src).locationOf x n).kind.Complements
        ((ofSource src).locationOf y n).kind := by
    obtain ⟨hplace, hbound⟩ := hdeclares hx hd
    refine complements_of_referenced ?_ hr hxy
    rw [hsource]
    exact shorthand_of_declares_refers hlaid hphrased hplace hbound hr
  have haccesses {x y : SymbolId} (hx : ((planMangle sel opts).value (ofSource src)).Renames x)
      (hd : (ofSource src).declared[n]? = some x) (hm : (ofSource src).memberAt[n]? = some y)
      (hxy : y ≠ x) : ((ofSource src).locationOf y n).kind.Complements
        ((ofSource src).locationOf x n).kind := by
    refine complements_of_declared ?_ hd hxy
    rw [hsource]
    exact Source.pattern_of_declares_accesses hlaid hphrased (hdeclares hx hd).1
      (isMemberUse_ofSource hlaid hm)
  have hproperty {x y : SymbolId} (hr : (ofSource src).referenced[n]? = some x)
      (hm : (ofSource src).memberAt[n]? = some y) (hxy : y ≠ x) :
      ((ofSource src).locationOf y n).kind.Complements
        ((ofSource src).locationOf x n).kind := by
    refine complements_of_referenced ?_ hr hxy
    rw [hsource]
    exact shorthand_of_refers_accesses hlaid hphrased hr (isMemberUse_ofSource hlaid hm)
  cases hsn with
  | declares hd =>
    cases htn with
    | declares hd' => exact absurd (Option.some.inj (hd.symm.trans hd')) hne
    | refers hr => exact hrefers hs hd hr hne
    | accesses hm => exact (haccesses hs hd hm hne.symm).symm
  | refers hr =>
    cases htn with
    | declares hd => exact (hrefers ht hd hr hne.symm).symm
    | refers hr' => exact absurd (Option.some.inj (hr.symm.trans hr')) hne
    | accesses hm => exact (hproperty hr hm hne.symm).symm
  | accesses hm =>
    cases htn with
    | declares hd => exact haccesses ht hd hm hne
    | refers hr => exact hproperty hr hm hne
    | accesses hm' => exact absurd (Option.some.inj (hm.symm.trans hm')) hne

/-- **The locations of renamed symbols are without conflict.** -/
theorem compatible_locationOf {m : NodeId} {files : List ParsedFile} {p : Program}
    (hbuild : build files = .ok p) (hshape : p.ParserShaped)
    (hsel : ∀ f ∈ sel, f ∈ p.source.fileIds) (hs : ((planMangle sel opts).value p).Renames s)
    (ht : ((planMangle sel opts).value p).Renames t) (hn : p.StandsFor n s) (hm : p.StandsFor m t)
    (hne : n ≠ m ∨ s ≠ t) : (p.locationOf s n).Compatible (p.locationOf t m) := by
  have haddressed := addressed_of_build hbuild
  have hlaid := source_laidOut hbuild
  intro hfile
  by_cases hnm : n = m
  · subst hnm
    have hkinds := complements_of_standsFor hbuild hshape hsel hs ht hn hm (hne.resolve_left (· rfl))
    have hbare : p.source.kind n ≠ "string" := by
      intro hstring
      have hs := (@locationOf_string p n s hstring).1
      rcases hkinds with ⟨hkey, -⟩ | ⟨hvalue, -⟩
      · cases hs.symm.trans hkey
      · cases hs.symm.trans hvalue
    obtain ⟨hstart, hstop, -⟩ := @locationOf_bare p n s hbare
    obtain ⟨hstart', hstop', -⟩ := @locationOf_bare p n t hbare
    exact .inr (.inr ⟨hstart.trans hstart'.symm, hstop.trans hstop'.symm, hkinds⟩)
  · have hnw := hshape.names n s hn (isAlias_of_renames hbuild hsel hs)
    have hmw := hshape.names m t hm (isAlias_of_renames hbuild hsel ht)
    obtain ⟨hnf, hnb⟩ := hlaid.below_root n hnw.lt_size
    obtain ⟨hmf, hmb⟩ := hlaid.below_root m hmw.lt_size
    rw [locationOf_file, locationOf_file] at hfile
    rw [← haddressed.distinct _ hnf _ hmf hfile] at hmb
    have hapart := hshape.nested.apart hnb hmb (hnw.not_below hmw hshape.nested (Ne.symm hnm))
      (hmw.not_below hnw hshape.nested hnm)
    have hnl := @locationOf_bounds p n s hnw.nonempty
    have hml := @locationOf_bounds p m t hmw.nonempty
    unfold Source.Apart at hapart
    unfold Location.Before
    omega

end Program
end Moniker
