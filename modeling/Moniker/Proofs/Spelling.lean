/-
# What stands for a symbol spells a name of it

A node stands for a symbol if it declares it, refers to it or denotes it as a property
(`Program.StandsFor`); these are its occurrences.  What declares a symbol or refers to it
spells its name.  A property is found in a table, under the name that is written there; tables
list symbols under their names, apart from those made of the exports of a module
(`Program.Extends.goesBy_tables`).  So a property spells the name of its symbol, or a name under
which a module exports the symbol (`Program.spells_of_standsFor`).

Parsers write such nodes as names (`Program.ParserShaped`): a string is a name in quotes, and
any other node is the bare name.
-/

import Moniker.Proofs.Components
import Moniker.Proofs.DeclarationSites
import Moniker.Proofs.Navigation

namespace Moniker

/-! ### Names as parsers make them -/

namespace Source

variable {src : Source} {n : NodeId} {name : String}

/-- What a name is never: an expression or a type, which has no text to rename, or a part of
a string. -/
def wordless : List String :=
  ["object", "object_type", "class", "string_fragment", "escape_sequence"]

/-- The parts of a string. -/
def fragmentKinds : List String := ["string_fragment", "escape_sequence"]

/-- The parts of the trees are what parsers make of them. -/
structure Phrased (src : Source) : Prop where
  /-- Keys and properties are never identifiers, and type identifiers only as the last part of
  a dotted type. -/
  properties : ∀ n, src.IsMemberUse n → src.kind n ≠ "identifier" ∧
    (src.kind n = "type_identifier" → ∃ o, src.kind o = "nested_type_identifier" ∧
      src.child? o "name" = some n)
  parameters : ∀ n, src.field n = "parameters" → src.kind n = "formal_parameters"
  classBody : ∀ o body, src.kind o ∈ classKinds → src.child? o "body" = some body →
    src.kind body = "class_body"
  enumBody : ∀ o body, src.kind o = "enum_declaration" → src.child? o "body" = some body →
    src.kind body = "enum_body"

/-- The node is written as parsers write names. -/
structure WrittenAsName (src : Source) (n : NodeId) : Prop where
  named : src.named n = true
  nonempty : src.start n < src.stop n
  kind : src.kind n ∉ wordless
  /-- It covers whole characters. -/
  whole : Text.encode (src.text n) = src.bytes n
  /-- What is no string has nothing named in it, and is not in quotes. -/
  bare : src.kind n ≠ "string" → (∀ c ∈ src.children n, src.named c = false) ∧
    ∀ mark ∈ quoteMarks, (src.text n).toList.head? ≠ some mark
  /-- What is named in a string is a part of it, behind the quote and with nothing in it. -/
  quoted : src.kind n = "string" → ∀ c ∈ src.children n, src.named c = true →
    src.start n < src.start c ∧ src.kind c ∈ fragmentKinds ∧ src.children c = []

theorem WrittenAsName.lt_size (h : src.WrittenAsName n) : n.idx < src.nodes.size := by
  by_contra hge
  have hnamed := h.named
  rw [Source.named, node_of_size_le (not_lt.mp hge)] at hnamed
  cases hnamed

/-- Nothing named in a name starts where the name does. -/
theorem WrittenAsName.start_lt (h : src.WrittenAsName n) :
    ∀ c ∈ src.children n, src.named c = true → src.start n < src.start c := by
  intro c hc hnamed
  by_cases hkind : src.kind n = "string"
  · exact (h.quoted hkind c hc hnamed).1
  · exact absurd (hnamed.symm.trans ((h.bare hkind).1 c hc)) Bool.true_eq_false.mp

/-- A bare name is all there is to spell. -/
theorem WrittenAsName.text_eq (h : src.WrittenAsName n) (hkind : src.kind n ≠ "string")
    (hspells : src.Spells n name) : src.text n = name := by
  refine hspells.resolve_right fun ⟨mark, hmark, htext⟩ => ?_
  exact (h.bare hkind).2 mark hmark (by rw [htext]; rfl)

/-- **No name lies in another.** -/
theorem WrittenAsName.not_below {m : NodeId} (h : src.WrittenAsName n) (hm : src.WrittenAsName m)
    (hs : src.Nested) (hne : m ≠ n) : ¬ src.Below n m := by
  intro hbelow
  rcases Relation.ReflTransGen.cases_head hbelow with rfl | ⟨c, hc, hcm⟩
  · exact hne rfl
  -- A token has no children, so what leads on to a name is named.
  have hnamed : src.named c = true := by
    rcases Relation.ReflTransGen.cases_head hcm with rfl | ⟨d, hd, -⟩
    · exact hm.named
    · by_contra hunnamed
      rw [hs.tokens c (Bool.eq_false_iff.mpr hunnamed)] at hd
      exact nomatch hd
  by_cases hkind : src.kind n = "string"
  · obtain ⟨-, hfragment, hleaf⟩ := h.quoted hkind c hc hnamed
    rcases Relation.ReflTransGen.cases_head hcm with rfl | ⟨d, hd, -⟩
    · have hwordless : ∀ k ∈ fragmentKinds, k ∈ wordless := by decide
      exact hm.kind (hwordless _ hfragment)
    · rw [hleaf] at hd
      exact nomatch hd
  · exact absurd (hnamed.symm.trans ((h.bare hkind).1 c hc)) Bool.true_eq_false.mp

end Source

namespace Program

open Binding (Declares Named Stable)

variable {src : Source} {p q : Program} {n : NodeId} {s : SymbolId} {name : String}
  {files : List ParsedFile}

/-- The node is an occurrence of the symbol. -/
inductive StandsFor (p : Program) (n : NodeId) (s : SymbolId) : Prop
  | declares (h : p.declared[n]? = some s)
  | refers (h : p.referenced[n]? = some s)
  | accesses (h : p.memberAt[n]? = some s)

/-- The trees are made as parsers make them, and what stands for a symbol is written as a name,
aliases apart. -/
structure ParserShaped (p : Program) : Prop where
  nested : p.source.Nested
  phrased : p.source.Phrased
  names : ∀ n s, p.StandsFor n s → (p.symbol s).isAlias = false → p.source.WrittenAsName n

/-! ### Names of a symbol -/

/-- The symbol has the name, or a module exports it under the name. -/
def GoesBy (p : Program) (name : String) (s : SymbolId) : Prop :=
  Named name s p ∨ ∃ m, (name, s) ∈ (p.moduleInfo m).exports

theorem GoesBy.extends (hp : p.GoesBy name s) (h : Extends src p q) : q.GoesBy name s := by
  refine hp.imp (Stable.grows h.grows) fun ⟨m, hm⟩ => ⟨m, ?_⟩
  rwa [moduleInfo, h.modules_eq]

/-- **Tables list symbols under names that they go by,** also those made while types are worked
out. -/
theorem Extends.goesBy_tables (h : Extends src p q)
    (hp : ∀ t, ∀ e ∈ (p.table t).entries, p.GoesBy e.1 e.2) :
    ∀ t, ∀ e ∈ (q.table t).entries, q.GoesBy e.1 e.2 := by
  induction h with
  | trans _ _ ih₁ ih₂ => exact ih₂ (ih₁ hp)
  | @types p q h =>
    have htables : q.facts.tables = p.facts.tables := by rw [h]
    intro t e he
    rw [Program.table, show q.tables = p.tables from htables] at he
    exact (hp t e he).extends (@Extends.types src p q h)
  | table p tbl hexports =>
    intro t e he
    rw [table_addTable] at he
    split at he
    · exact .inr (hexports e he)
    · exact (hp t e he).extends (@Extends.table src p tbl hexports)
  | member p t' name m hlt hscope hname hliteral =>
    intro t e he
    rw [table_addToTable] at he
    split at he
    · rcases List.mem_append.mp he with he | he
      · exact (hp t e he).extends (@Extends.member src p t' name m hlt hscope hname hliteral)
      · rw [List.mem_singleton.mp he]
        exact .inl ⟨hlt, hname⟩
    · exact (hp t e he).extends (@Extends.member src p t' name m hlt hscope hname hliteral)
  | refl => exact hp
  | symbol p sym hscope =>
    exact fun t e he => (hp t e he).extends (@Extends.symbol src p sym hscope)
  | members p m t' hm => exact fun t e he => (hp t e he).extends (@Extends.members src p m t' hm)
  | target p m next? => exact fun t e he => (hp t e he).extends (@Extends.target src p m next?)
  | join p m k traits hscope hkey hhard hliteral =>
    exact fun t e he => (hp t e he).extends (.join p m k traits hscope hkey hhard hliteral)
  | declared p k m hlt hscope hmem hkey hspells hliteral =>
    exact fun t e he => (hp t e he).extends (.declared p k m hlt hscope hmem hkey hspells hliteral)
  | shape p k m => exact fun t e he => (hp t e he).extends (@Extends.shape src p k m)
  | link p k m name hk hplace hspells hlists =>
    exact fun t e he => (hp t e he).extends (.link p k m name hk hplace hspells hlists)
  | effect p k => exact fun t e he => (hp t e he).extends (@Extends.effect src p k)

/-- **A property that is linked spells a name that its symbol goes by.** -/
theorem Extends.spells_memberAt (h : Extends src p q)
    (hp : ∀ t, ∀ e ∈ (p.table t).entries, p.GoesBy e.1 e.2) (hn : q.memberAt[n]? = some s) :
    p.memberAt[n]? = some s ∨ ∃ name, src.Spells n name ∧ q.GoesBy name s := by
  induction h with
  | trans h₁ h₂ ih₁ ih₂ =>
    rcases ih₂ (h₁.goesBy_tables hp) hn with hn | hnew
    · exact (ih₁ hp hn).imp_right fun ⟨name, hspells, hname⟩ => ⟨name, hspells, hname.extends h₂⟩
    · exact .inr hnew
  | @types p q h =>
    have hmemberAt : q.facts.memberAt = p.facts.memberAt := by rw [h]
    exact .inl (hmemberAt ▸ hn)
  | link p m t name hnone hplace hspells hlists =>
    have hinsert : (p.memberAt.insert m t)[n]? = some s := hn
    rw [Table.getElem?_insert] at hinsert
    split at hinsert
    · next heq =>
      obtain rfl := eq_of_beq heq
      obtain rfl := Option.some.inj hinsert
      obtain ⟨u, hu⟩ := hlists
      exact .inr ⟨name, hspells, (hp u _ hu).extends (.link p m t name hnone hplace hspells ⟨u, hu⟩)⟩
    · exact .inl hinsert
  | refl | symbol | table | members | target | member | join | declared | shape | effect =>
    exact .inl hn

theorem spells_memberAt_ofSource (hs : src.LaidOut) (hn : (ofSource src).memberAt[n]? = some s) :
    ∃ name, src.Spells n name ∧ (ofSource src).GoesBy name s := by
  have htables : ∀ t, ∀ e ∈ ((linked src).table t).entries, (linked src).GoesBy e.1 e.2 := by
    intro t e he
    have hsame : (linked src).table t = (bound src).table t :=
      show (linked src).unlinked.table t = (bound src).unlinked.table t by rw [unlinked_linked]
    obtain ⟨hlt, hname⟩ := (declSound_bound hs).tables (hsame ▸ he)
    refine .inl ⟨?_, ?_⟩
    · rwa [symbols_linked]
    · rwa [symbol, symbols_linked]
  refine ((extends_linked src).spells_memberAt htables hn).resolve_left fun h => ?_
  rw [memberAt_linked hs] at h
  simp at h

/-- What is declared is declared by a node that spells its name. -/
theorem declares_ofSource (hs : src.LaidOut) (hn : (ofSource src).declared[n]? = some s) :
    Declares src n s (ofSource src) := by
  rcases (extends_linked src).declared_new hn with hold | hnew
  · rw [declared_linked] at hold
    exact Stable.grows (grows_ofSource src) ((declSound_bound hs).declared hold)
  · exact hnew

/-- **What stands for a symbol spells its name,** or is a property written under another name
that a module exports the symbol under. -/
theorem spells_of_standsFor (h : build files = .ok p) (hn : p.StandsFor n s) :
    p.source.Spells n (p.symbol s).name ∨ p.memberAt[n]? = some s ∧
      ∃ m name, (name, s) ∈ (p.moduleInfo m).exports ∧ p.source.Spells n name := by
  obtain ⟨src, rfl, hs⟩ := laidOut_of_build h
  rw [source_ofSource hs]
  cases hn with
  | declares hn => exact .inl (declares_ofSource hs hn).spells
  | refers hn =>
    obtain ⟨c, -, space, hknown⟩ := knownAround_of_found? ((found_ofSource hs).referenced n s hn)
    rw [source_ofSource hs] at hknown
    exact .inl (.inl ((wellScoped_ofSource hs).known hknown.knows).2.symm)
  | accesses hn =>
    obtain ⟨name, hspells, ⟨-, rfl⟩ | ⟨m, hm⟩⟩ := spells_memberAt_ofSource hs hn
    · exact .inl hspells
    · exact .inr ⟨hn, m, name, hm, hspells⟩

end Program
end Moniker
