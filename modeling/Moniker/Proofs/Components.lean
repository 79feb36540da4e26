/-
# The tags of components

An identifier that names a JSX element is looked up only if it begins with a capital
(`Program.isValueUse_iff_of_isTag`); the others name elements of the page.  New names begin
with a small letter, or with `#` if they are hard-private (`Allocator.Sound.startsUpper_target`),
and they are given out without regard to where a symbol is used.

So a component that is renamed is lost to its tags: what is written there passes the test
exactly if the plan leaves the component alone (`ManglePlan.KeepsTags`).
-/

import Moniker.Proofs.Bytes
import Moniker.Proofs.Lookup
import Moniker.Proofs.Plans

namespace Moniker

open References (Linked Uses isValueUse startsUpper valueKinds typeKind)
open Program (tagKinds)

/-! ### First letters -/

/-- A text that begins with an ASCII character other than a capital. -/
theorem startsUpper_ofList_cons {c : Char} {cs : List Char}
    (hc : c.toNat < 0x41 ∨ 0x5A < c.toNat) (hascii : c.toNat ≤ 127) :
    startsUpper (String.ofList (c :: cs)) = false := by
  have hbyte : (UInt8.ofNat c.toNat).toNat = c.toNat :=
    UInt8.toNat_ofNat_of_lt' (by rw [UInt8.size]; omega)
  rw [startsUpper, Text.toList_toUTF8_ofList_cons hascii]
  simp only [hbyte, Bool.or_eq_false_iff, Bool.and_eq_false_iff, decide_eq_false_iff_not]
  omega

/-- A numeral begins with a letter. -/
theorem exists_numeral_eq_cons (n : Nat) :
    ∃ d < 26, ∃ rest, numeral (n + 1) = letter d :: rest := by
  induction n using Nat.strongRecOn with
  | ind n ih =>
    rw [numeral_succ]
    cases hm : n / 26 with
    | zero =>
      rw [numeral_zero]
      exact ⟨n % 26, Nat.mod_lt _ (by omega), [], rfl⟩
    | succ m =>
      obtain ⟨d, hd, rest, hrest⟩ := ih m (by omega)
      exact ⟨d, hd, rest ++ [letter (n % 26)], by rw [hrest, List.cons_append]⟩

theorem startsUpper_minified (i : Nat) : startsUpper (minified i) = false := by
  obtain ⟨d, hd, rest, hrest⟩ := exists_numeral_eq_cons i
  have hletter := toNat_letter hd
  rw [minified, hrest]
  exact startsUpper_ofList_cons (.inr (by omega)) (by omega)

/-- **No new name begins with a capital.** -/
theorem Allocator.Sound.startsUpper_target {p final : Program} {a : Allocator}
    {out : List Renaming} (h : Allocator.Sound p final a out) {r : Renaming} (hr : r ∈ out) :
    startsUpper r.target = false := by
  obtain ⟨names, hnames, i, -, htarget⟩ := h.spent r hr
  rw [htarget, NamePool.current, h.heads _ _ hnames]
  cases r.domain with
  | hardPrivate owner =>
    have hhash : "#" ++ minified i = String.ofList ('#' :: numeral (i + 1)) :=
      String.ofList_append.symm
    rw [startPool, hhash]
    exact startsUpper_ofList_cons (.inl (by decide)) (by decide)
  | lexical scope | members owner =>
    exact (congrArg startsUpper String.empty_append).trans (startsUpper_minified i)

/-! ### Tags -/

/-- The identifier names a JSX element. -/
structure Source.IsTag (src : Source) (n : NodeId) : Prop where
  kind : src.kind n = "identifier"
  field : src.field n = "name"
  element : ∃ m, src.parent n = some m ∧ src.kind m ∈ tagKinds

/-- Nothing that names an element is taken for a property. -/
theorem Source.IsTag.not_isMemberUse {src : Source} {n : NodeId} (hs : src.LaidOut)
    (h : src.IsTag n) : ¬ src.IsMemberUse n := by
  obtain ⟨m, hm, hkind⟩ := h.element
  have hfield {o : NodeId} {field : String} (ho : src.child? o field = some n) :
      src.kind o ∈ tagKinds := by
    rwa [← Option.some.inj (hm.symm.trans (hs.parent_eq (List.mem_of_find?_eq_some ho)))]
  intro huse
  cases huse with
  | access o _ ho hc | pairPart o _ ho hc | qualified o _ ho hc =>
    have htag := hfield hc
    rw [ho] at htag
    exact absurd htag (by decide)
  | index _ _ _ _ hstring | lookup _ _ _ _ hstring | part _ hstring =>
    exact absurd (h.kind.symm.trans hstring) (by decide)
  | literal _ hkey =>
    cases hkey with
    | shorthand _ _ _ _ hshort => exact absurd (h.kind.symm.trans hshort) (by decide)
    | pair _ o _ _ _ ho hc | method _ o _ _ _ ho hc =>
      have htag := hfield hc
      rw [ho] at htag
      exact absurd htag (by decide)

namespace Program

variable {src : Source} {p q : Program} {n : NodeId} {s : SymbolId}

/-- **A tag is looked up if it begins with a capital.** -/
theorem isValueUse_iff_of_isTag (h : p.source.IsTag n) :
    isValueUse p n = true ↔ startsUpper (p.source.text n) = true := by
  obtain ⟨m, hm, hkind⟩ := h.element
  unfold isValueUse
  dsimp only
  rw [hm]
  simp only [tagKinds, List.mem_cons, List.not_mem_nil, or_false] at hkind
  rcases hkind with hk | hk | hk <;> simp [hk, h.field]

/-- What denotes a property stands where a property is denoted. -/
theorem Extends.isMemberUse (h : Extends src p q) (hn : q.memberAt[n]? = some s) :
    p.memberAt[n]? = some s ∨ src.IsMemberUse n := by
  induction h with
  | trans _ _ ih₁ ih₂ => exact (ih₂ hn).elim ih₁ .inr
  | @types p q h =>
    have hmemberAt : q.facts.memberAt = p.facts.memberAt := by rw [h]
    exact .inl (hmemberAt ▸ hn)
  | link p m t name _ hplace =>
    have hinsert : (p.memberAt.insert m t)[n]? = some s := hn
    rw [Table.getElem?_insert] at hinsert
    split at hinsert
    · next heq => exact .inr (eq_of_beq heq ▸ hplace)
    · exact .inl hinsert
  | refl | symbol | table | members | target | member | join | declared | shape | effect =>
    exact .inl hn

/-- Before types are worked out no property is denoted. -/
theorem memberAt_linked (hs : src.LaidOut) : (linked src).memberAt = {} := by
  change (linked src).unlinked.memberAt = {}
  rw [unlinked_linked]
  exact (untouched_bound hs).memberAt

theorem isMemberUse_ofSource (hs : src.LaidOut) (hn : (ofSource src).memberAt[n]? = some s) :
    src.IsMemberUse n := by
  refine ((extends_linked src).isMemberUse hn).resolve_left fun h => ?_
  rw [memberAt_linked hs] at h
  simp at h

/-- **A tag that denotes a symbol is looked up,** and spells its name. -/
theorem referenced_of_isTag (hs : src.LaidOut) (htag : src.IsTag n)
    (hn : n ∈ ((ofSource src).references s).toList) :
    startsUpper (src.text n) = true ∧ ((ofSource src).symbol s).name = src.text n := by
  have hsource := source_ofSource hs
  have hdenotes : (ofSource src).referenced[n]? = some s := by
    have hcount := exact_ofSource hs s n
    have hpos := List.count_pos_iff.mpr hn
    by_contra hne
    rw [if_neg hne, if_neg fun h => htag.not_isMemberUse hs (isMemberUse_ofSource hs h)] at hcount
    omega
  have hlinked : Linked (linked src) n := by
    refine .inl ?_
    rw [← (extends_linked src).referenced_eq, Std.TreeMap.contains_eq_isSome_getElem?, hdenotes]
    rfl
  have hbound := source_bound hs
  have huse : isValueUse (bound src) n = true := by
    rcases ((References.linked_linked hs).mp hlinked).2 with ⟨_, huse⟩ | ⟨hkind, _⟩
    · exact huse
    · rw [hbound, htag.kind] at hkind
      exact absurd hkind (by decide)
  rw [isValueUse_iff_of_isTag (hbound.symm ▸ htag), hbound] at huse
  obtain ⟨c, -, space, hknown⟩ := knownAround_of_found? ((found_ofSource hs).referenced n s hdenotes)
  rw [hsource] at hknown
  exact ⟨huse, ((wellScoped_ofSource hs).known hknown.knows).2⟩

/-- At a tag nothing but the name is written. -/
theorem locationOf_of_isTag (h : p.source.IsTag n) : p.locationOf s n =
    { file := p.source.pathOf n, start := p.source.start n, stop := p.source.stop n } := by
  obtain ⟨m, hm, hkind⟩ := h.element
  have hother : p.source.kind m ≠ "export_specifier" ∧ p.source.kind m ≠ "import_specifier" := by
    constructor <;>
    · intro hk
      rw [hk] at hkind
      exact absurd hkind (by decide)
  unfold locationOf
  simp [h.kind, hm, hother.1, hother.2]

end Program

namespace ManglePlan

/-- What becomes of the tags of a symbol. -/
structure KeepsTags (p : Program) (plan : ManglePlan) : Prop where
  /-- A tag denotes a symbol only by a name that begins with a capital. -/
  capital : ∀ s n, n ∈ (p.references s).toList → p.source.IsTag n →
    isValueUse p n = true ∧ (p.symbol s).name = p.source.text n
  /-- The final name of the symbol is all that will be written there. -/
  plain : ∀ s n, n ∈ (p.references s).toList → p.source.IsTag n → p.locationOf s n =
    { file := p.source.pathOf n, start := p.source.start n, stop := p.source.stop n }
  /-- It begins with a capital if the symbol is not renamed, and only then. -/
  stays : ∀ s n, n ∈ (p.references s).toList → p.source.IsTag n →
    (startsUpper (plan.finalName p s) = true ↔ ¬ plan.Renames s)

theorem startsUpper_finalName {p : Program} {files : List FileId} {opts : MangleOptions}
    {s : SymbolId} (hw : WellScoped p) (hs : p.source.LaidOut)
    (hsel : ∀ f ∈ files, f ∈ p.source.fileIds) (h : ((planMangle files opts).value p).Renames s) :
    startsUpper (((planMangle files opts).value p).finalName p s) = false := by
  obtain ⟨⟨a, hsettled⟩, -⟩ := settled_planMangle opts hw hs hsel
  obtain ⟨r, hr, -, htarget⟩ := exists_target_eq_finalName h
  rw [← htarget]
  exact hsettled.sound.startsUpper_target hr

end ManglePlan

/-- **A tag stays a reference to its component exactly if the component is not renamed.** -/
theorem keepsTags_planMangle {files : List ParsedFile} {p : Program}
    (h : Program.build files = .ok p) {sel : List FileId} (hsel : ∀ f ∈ sel, f ∈ p.source.fileIds)
    (opts : MangleOptions) : ((planMangle sel opts).value p).KeepsTags p := by
  obtain ⟨src, rfl, hs⟩ := Program.laidOut_of_build h
  have hsource := Program.source_ofSource hs
  have htag {s : SymbolId} {n : NodeId} (hn : n ∈ ((Program.ofSource src).references s).toList)
      (htag : (Program.ofSource src).source.IsTag n) :
      startsUpper (src.text n) = true ∧ ((Program.ofSource src).symbol s).name = src.text n :=
    Program.referenced_of_isTag hs (hsource ▸ htag) hn
  refine ⟨fun s n hn hn' => ?_, fun s n _ hn' => Program.locationOf_of_isTag hn', fun s n hn hn' => ?_⟩
  · obtain ⟨hupper, hname⟩ := htag hn hn'
    rw [Program.isValueUse_iff_of_isTag hn', hsource]
    exact ⟨hupper, hname⟩
  · obtain ⟨hupper, hname⟩ := htag hn hn'
    constructor
    · intro hfinal hrenames
      have hsmall := ManglePlan.startsUpper_finalName (Program.wellScoped_ofSource hs)
        (hsource.symm ▸ hs) hsel hrenames
      exact Bool.false_ne_true (hsmall.symm.trans hfinal)
    · intro hrenames
      rw [ManglePlan.finalName_of_not_renames hrenames, hname]
      exact hupper

/-- A component, and an element of it. -/
def shownWidget : ParsedFile where
  path := "main.tsx"
  contents := "function Widget() \x7b\x7d\nconst shown = <Widget />\nexport \x7b\x7d".toUTF8
  tree :=
    .node "program" "" true 0 55 [
      .node "function_declaration" "" true 0 20 [
        .node "identifier" "name" true 9 15 [],
        .node "formal_parameters" "parameters" true 15 17 [],
        .node "statement_block" "body" true 18 20 []],
      .node "lexical_declaration" "" true 21 45 [
        .node "const" "kind" false 21 26 [],
        .node "variable_declarator" "" true 27 45 [
          .node "identifier" "name" true 27 32 [],
          .node "jsx_self_closing_element" "value" true 35 45 [
            .node "identifier" "name" true 36 42 []]]],
      .node "export_statement" "" true 46 55 [.node "export_clause" "" true 53 55 []]]

theorem keepsTags_planMangle_shownWidget : ∃ p, Program.build [shownWidget] = .ok p ∧
    ((planMangle [⟨0⟩] {}).value p).KeepsTags p := by
  have hbuild := Program.build_singleton shownWidget
  refine ⟨_, hbuild, keepsTags_planMangle hbuild (fun f hf => ?_) {}⟩
  rw [Program.fileIds_of_build hbuild, List.mem_singleton.mp hf]
  decide

end Moniker
