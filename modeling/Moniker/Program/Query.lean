/-
# Questions put to a program

Source: `program.Program.newSymbol`, `newType`, `addRef`.

Working out types adds to a program: types and what is remembered of them, the
shapes of object literals and their members, the targets of aliases, the links of
member accesses, and where values leave the program.  It leaves the scopes, the
modules and what identifiers denote alone.

`Extends` lists what may be added, and a `Query` is a computation that adds
nothing else: its type holds the proof, so whatever is put together from the
queries of this module has it too.

The members of an object literal are looked up by name and then extended.  That
such a member belongs to the literal, and to no scope, is known while the literal is one
of the `own` shapes of the query; `withShape` makes a shape and runs a query that owns it.
-/

import Moniker.Program.Basic

namespace Moniker

/-- The key of a part of an object literal. -/
inductive Source.IsLiteralKey (src : Source) : NodeId → Prop where
  | shorthand (object c : NodeId) :
    src.kind object = "object" → c ∈ src.children object →
    src.kind c = "shorthand_property_identifier" → IsLiteralKey src c
  | pair (object c key : NodeId) :
    src.kind object = "object" → c ∈ src.children object →
    src.kind c = "pair" → src.child? c "key" = some key → IsLiteralKey src key
  | method (object c key : NodeId) :
    src.kind object = "object" → c ∈ src.children object →
    src.kind c = "method_definition" → src.child? c "name" = some key → IsLiteralKey src key

/-- The node stands where a property is denoted. -/
inductive Source.IsMemberUse (src : Source) : NodeId → Prop where
  | access (n prop : NodeId) :
    src.kind n = "member_expression" → src.child? n "property" = some prop → IsMemberUse src prop
  | index (n i : NodeId) :
    src.kind n = "subscript_expression" → src.child? n "index" = some i → src.kind i = "string" →
    IsMemberUse src i
  | literal (key : NodeId) : src.IsLiteralKey key → IsMemberUse src key
  | part (key : NodeId) :
    src.kind key = "shorthand_property_identifier_pattern" → IsMemberUse src key
  | pairPart (n key : NodeId) :
    src.kind n = "pair_pattern" → src.child? n "key" = some key → IsMemberUse src key
  | qualified (n name : NodeId) :
    src.kind n = "nested_type_identifier" → src.child? n "name" = some name →
    IsMemberUse src name
  | lookup (n key : NodeId) :
    src.kind n = "lookup_type" ∨ src.kind n = "literal_type" → key ∈ src.children n →
    src.kind key = "string" → IsMemberUse src key

/-- An object literal that is being looked at, with the table of its members. -/
structure LiteralShape where
  symbol : SymbolId
  table : TableId

namespace Program

/-- Some table lists the symbol under the name. -/
def Lists (p : Program) (name : String) (s : SymbolId) : Prop :=
  ∃ t, (name, s) ∈ (p.table t).entries

theorem lists_of_find? {p : Program} {t : TableId} {name : String} {s : SymbolId}
    (h : (p.table t).find? name = some s) : p.Lists name s :=
  ⟨t, MemberTable.mem_entries_of_find? h⟩

/-- The symbol is a member of an object literal. -/
def IsLiteralMember (p : Program) (s : SymbolId) : Prop :=
  ∃ o, (p.symbol s).owner = some o ∧ (p.symbol o).isObjectLiteral = true

/-- What a program says apart from the types worked out so far. -/
def facts (p : Program) : Program :=
  { p with
    types := #[], intrinsics := {}, valueTypes := {}, declaredTypes := {}, annotationTypes := {},
    functionTypes := {}, positionTypes := {}, expressionTypes := {}, pending := {}, cut := false,
    endless := false }

/-- What working out types can make of a program. -/
inductive Extends (src : Source) : Program → Program → Prop where
  | refl (p : Program) : Extends src p p
  | trans {p q r : Program} : Extends src p q → Extends src q r → Extends src p r
  | types {p q : Program} : q.facts = p.facts → Extends src p q
  | symbol (p : Program) (sym : Symbol) : sym.scope = none → Extends src p (p.addSymbol sym)
  | table (p : Program) (tbl : MemberTable) :
    (∀ e ∈ tbl.entries, ∃ m, e ∈ (p.moduleInfo m).exports) → Extends src p (p.addTable tbl)
  | members (p : Program) (s : SymbolId) (t : TableId) :
    (p.symbol s).members = none →
    Extends src p (p.modifySymbol s fun x => { x with members := some t })
  | target (p : Program) (s : SymbolId) (next? : Option SymbolId) :
    Extends src p (p.modifySymbol s fun x => { x with target := some next? })
  | member (p : Program) (t : TableId) (name : String) (s : SymbolId) :
    s.idx < p.symbols.size → (p.symbol s).scope = none → (p.symbol s).name = name →
    p.IsLiteralMember s → Extends src p (p.addToTable t name s)
  | join (p : Program) (s : SymbolId) (n : NodeId) (traits : Traits) :
    (p.symbol s).scope = none → src.IsLiteralKey n → traits.has .hardPrivate = false →
    p.IsLiteralMember s → Extends src p (p.modifySymbol s fun x =>
      { x with traits := x.traits.union traits, decls := x.decls ++ [n] })
  | declared (p : Program) (n : NodeId) (s : SymbolId) :
    s.idx < p.symbols.size → (p.symbol s).scope = none → n ∈ (p.symbol s).decls →
    src.IsLiteralKey n → src.Spells n (p.symbol s).name → p.IsLiteralMember s →
    Extends src p (p.markDeclared n s)
  | shape (p : Program) (n : NodeId) (s : SymbolId) : Extends src p (p.markShape n s)
  | link (p : Program) (n : NodeId) (m : SymbolId) (name : String) :
    p.memberAt.contains n = false → src.IsMemberUse n → src.Spells n name → p.Lists name m →
    Extends src p ((p.markMember n m).addUse n m)
  | effect (p : Program) (n : NodeId) : Extends src p { p with effects := p.effects.push n }

/-- The symbol belongs to an object literal and to no scope, and has the name. -/
structure IsMember (p : Program) (name : String) (s : SymbolId) : Prop where
  lt : s.idx < p.symbols.size
  scope : (p.symbol s).scope = none
  name : (p.symbol s).name = name
  literal : p.IsLiteralMember s

/-- The table of an object literal holds only members of literals, under their names. -/
structure HoldsMembers (p : Program) (o : LiteralShape) : Prop where
  table_lt : o.table.idx < p.tables.size
  literal : (p.symbol o.symbol).isObjectLiteral = true
  members : ∀ e ∈ (p.table o.table).entries, p.IsMember e.1 e.2

end Program

namespace Program

variable {src : Source} {p q : Program}

/-- Scopes and names of symbols stay as they are, and no symbol is lost. -/
theorem Extends.scopes_kept (h : Extends src p q) :
    p.symbols.size ≤ q.symbols.size ∧
      ∀ s : SymbolId, s.idx < p.symbols.size →
        (q.symbol s).scope = (p.symbol s).scope ∧ (q.symbol s).name = (p.symbol s).name := by
  induction h with
  | refl p => exact ⟨Nat.le_refl _, fun _ _ => ⟨rfl, rfl⟩⟩
  | trans _ _ ih₁ ih₂ =>
    refine ⟨Nat.le_trans ih₁.1 ih₂.1, fun s hs => ?_⟩
    have h₁ := ih₁.2 s hs
    have h₂ := ih₂.2 s (Nat.lt_of_lt_of_le hs ih₁.1)
    exact ⟨h₂.1.trans h₁.1, h₂.2.trans h₁.2⟩
  | types h =>
    have hsym : _ = _ := congrArg Program.symbols h
    simp only [facts] at hsym
    refine ⟨Nat.le_of_eq (by rw [hsym]), fun s _ => ?_⟩
    simp only [Program.symbol, hsym, and_self]
  | symbol p sym _ =>
    refine ⟨by simp, fun s hs => ?_⟩
    rw [symbol_addSymbol, if_neg (Nat.ne_of_lt hs)]
    exact ⟨rfl, rfl⟩
  | members p s | target p s | join p s =>
    refine ⟨by simp, fun s' _ => ?_⟩
    rw [symbol_modifySymbol]
    split <;> exact ⟨rfl, rfl⟩
  | table | member | declared | shape | link | effect =>
    exact ⟨Nat.le_refl _, fun _ _ => ⟨rfl, rfl⟩⟩

/-- What symbols belong to stays as it is, and object literals stay what they are. -/
theorem Extends.owners_kept (h : Extends src p q) :
    (∀ s : SymbolId, s.idx < p.symbols.size → (q.symbol s).owner = (p.symbol s).owner) ∧
      ∀ s, (p.symbol s).isObjectLiteral = true → (q.symbol s).isObjectLiteral = true := by
  induction h with
  | refl p => exact ⟨fun _ _ => rfl, fun _ h => h⟩
  | trans h₁ _ ih₁ ih₂ =>
    exact ⟨fun s hs => (ih₂.1 s (Nat.lt_of_lt_of_le hs h₁.scopes_kept.1)).trans (ih₁.1 s hs),
      fun s hs => ih₂.2 s (ih₁.2 s hs)⟩
  | types h =>
    have hsym : _ = _ := congrArg Program.symbols h
    simp only [facts] at hsym
    exact ⟨fun s _ => by simp only [Program.symbol, hsym],
      fun s hs => by simpa only [Program.symbol, hsym] using hs⟩
  | symbol p sym _ =>
    refine ⟨fun s hs => ?_, fun s hs => ?_⟩
    · rw [symbol_addSymbol, if_neg (Nat.ne_of_lt hs)]
    · have hlt : s.idx < p.symbols.size := by
        refine Nat.lt_of_not_le fun hge => ?_
        rw [Program.symbol, getD_of_size_le hge] at hs
        exact nomatch hs
      rwa [symbol_addSymbol, if_neg (Nat.ne_of_lt hlt)]
  | members p s t _ | target p s _ =>
    refine ⟨fun s' _ => ?_, fun s' hs => ?_⟩
    all_goals
      rw [symbol_modifySymbol]
      split
      · first | rfl | exact hs
      · first | rfl | exact hs
  | join p s n traits =>
    refine ⟨fun s' _ => ?_, fun s' hs => ?_⟩
    · rw [symbol_modifySymbol]
      split <;> rfl
    · rw [symbol_modifySymbol]
      split
      · simp only [Symbol.isObjectLiteral, Symbol.has, Bool.and_eq_true] at hs ⊢
        exact ⟨by rw [Traits.has_union, hs.1, Bool.true_or], hs.2⟩
      · exact hs
  | table | member | declared | shape | link | effect => exact ⟨fun _ _ => rfl, fun _ h => h⟩

theorem IsLiteralMember.extends {s : SymbolId} (h : Extends src p q) (hs : s.idx < p.symbols.size)
    (ho : p.IsLiteralMember s) : q.IsLiteralMember s := by
  obtain ⟨o, howner, hliteral⟩ := ho
  exact ⟨o, (h.owners_kept.1 s hs).trans howner, h.owners_kept.2 o hliteral⟩

theorem IsMember.extends {name : String} {s : SymbolId} (hs : p.IsMember name s)
    (h : Extends src p q) : q.IsMember name s where
  lt := Nat.lt_of_lt_of_le hs.lt h.scopes_kept.1
  scope := (h.scopes_kept.2 s hs.lt).1.trans hs.scope
  name := (h.scopes_kept.2 s hs.lt).2.trans hs.name
  literal := .extends h hs.lt hs.literal

/-- A symbol of an object literal with a new table. -/
theorem HoldsMembers.new {shape : Symbol} (h : shape.isObjectLiteral = true) :
    ((p.addTable {}).addSymbol shape).HoldsMembers ⟨⟨p.symbols.size⟩, ⟨p.tables.size⟩⟩ := by
  refine ⟨by simp [addSymbol, addTable], ?_, fun e he => ?_⟩
  · rw [symbol_addSymbol]
    exact (congrArg Symbol.isObjectLiteral (if_pos rfl)).trans h
  · have htable : ((p.addTable {}).addSymbol shape).table ⟨p.tables.size⟩ = {} :=
      (table_addTable _).trans (if_pos rfl)
    rw [htable] at he
    exact nomatch he

theorem HoldsMembers.of_entries {o : LiteralShape} (ho : p.HoldsMembers o) (h : Extends src p q)
    (hsize : p.tables.size ≤ q.tables.size)
    (hentries : ∀ e ∈ (q.table o.table).entries,
      e ∈ (p.table o.table).entries ∨ p.IsMember e.1 e.2) : q.HoldsMembers o :=
  ⟨Nat.lt_of_lt_of_le ho.table_lt hsize, h.owners_kept.2 _ ho.literal, fun e he =>
    ((hentries e he).elim (ho.members e) id).extends h⟩

theorem HoldsMembers.of_tables_eq {o : LiteralShape} (ho : p.HoldsMembers o)
    (htab : q.tables = p.tables) (h : Extends src p q) : q.HoldsMembers o :=
  ho.of_entries h (Nat.le_of_eq (congrArg Array.size htab.symm)) fun e he => by
    simp only [table, htab] at he
    exact .inl he

/-- The table of an object literal goes on holding only members. -/
theorem HoldsMembers.extends {o : LiteralShape} (ho : p.HoldsMembers o) (h : Extends src p q) :
    q.HoldsMembers o := by
  induction h with
  | refl => exact ho
  | trans _ _ ih₁ ih₂ => exact ih₂ (ih₁ ho)
  | @types p q h =>
    have htab : q.facts.tables = p.facts.tables := by rw [h]
    exact ho.of_tables_eq htab (@Extends.types src p q h)
  | symbol p sym hsym => exact ho.of_tables_eq rfl (@Extends.symbol src p sym hsym)
  | members p s t' hm => exact ho.of_tables_eq rfl (@Extends.members src p s t' hm)
  | target p s next? => exact ho.of_tables_eq rfl (@Extends.target src p s next?)
  | join p s n traits hs hn hhard hliteral =>
    exact ho.of_tables_eq rfl (Extends.join p s n traits hs hn hhard hliteral)
  | table p tbl htbl =>
    refine ho.of_entries (@Extends.table src p tbl htbl) (Nat.le_of_lt (by simp)) fun e he => .inl ?_
    rwa [table_addTable, if_neg (Nat.ne_of_lt ho.table_lt)] at he
  | member p t' name s hlt hs hname hliteral =>
    refine ho.of_entries (@Extends.member src p t' name s hlt hs hname hliteral)
      (Nat.le_of_eq (by simp)) fun e he => ?_
    rw [table_addToTable] at he
    split at he
    · rcases List.mem_append.mp he with he | he
      · exact .inl he
      · rw [List.mem_singleton.mp he]
        exact .inr ⟨hlt, hs, hname, hliteral⟩
    · exact .inl he
  | declared p n s hlt hs hmem hkey hspells hliteral =>
    exact ho.of_tables_eq rfl (.declared p n s hlt hs hmem hkey hspells hliteral)
  | shape p n s => exact ho.of_tables_eq rfl (@Extends.shape src p n s)
  | link p n m name hn hplace hspells hlists =>
    exact ho.of_tables_eq rfl (.link p n m name hn hplace hspells hlists)
  | effect p n => exact ho.of_tables_eq rfl (@Extends.effect src p n)

end Program

/-- A computation that works out types. The tables of the object literals `own` hold only
members when it starts; most queries own none. -/
structure Query (src : Source) (own : List LiteralShape) (α : Type) where
  run : Program → α × Program
  keeps : ∀ p, (∀ o ∈ own, p.HoldsMembers o) → Program.Extends src p (run p).2

namespace Query

open Program (Extends)

variable {src : Source} {own : List LiteralShape} {α β : Type}

@[always_inline, inline]
protected def pure (a : α) : Query src own α where
  run p := (a, p)
  keeps p _ := .refl p

@[always_inline, inline]
protected def bind (m : Query src own α) (f : α → Query src own β) :
    Query src own β where
  run p :=
    let r := m.run p
    (f r.1).run r.2
  keeps p hp :=
    have first := m.keeps p hp
    first.trans ((f (m.run p).1).keeps _ fun t ht => (hp t ht).extends first)

instance : Monad (Query src own) where
  pure := Query.pure
  bind := Query.bind

instance : MonadLift (Query src []) (Query src own) where
  monadLift m := ⟨m.run, fun p _ => m.keeps p (fun _ h => nomatch h)⟩

instance : MonadLiftT (Query src []) Build where
  monadLift m := m.run

/-- Reads something off the program as it stands. -/
@[inline] def read (f : Program → α) : Query src own α :=
  ⟨fun p => (f p, p), fun p _ => .refl p⟩

/-- Adds to what is remembered about types. -/
@[inline] def learn (f : Program → Program)
    (h : ∀ p, (f p).facts = p.facts := by exact fun _ => rfl) : Query src own Unit :=
  ⟨fun p => ((), f p), fun p _ => .types (h p)⟩

/-- Notes that an answer was cut off. -/
def cutOff : Query src own Unit := learn fun p => { p with cut := true }

/-- Notes a search that has no end. -/
def runOn : Query src own Unit := learn fun p => { p with endless := true }

/-- Adds a symbol that belongs to no scope. -/
def newSymbol (sym : Symbol) (h : sym.scope = none := by rfl) : Query src own SymbolId :=
  ⟨fun p => (⟨p.symbols.size⟩, p.addSymbol sym), fun p _ => .symbol p sym h⟩

/-- Makes a table of exports the members of a symbol, unless it has members. -/
def setMembersOnce (s : SymbolId) (tbl : Program → MemberTable)
    (h : ∀ p, ∀ e ∈ (tbl p).entries, ∃ m, e ∈ (p.moduleInfo m).exports) :
    Query src own Unit where
  run p :=
    if (p.symbol s).members.isSome then ((), p)
    else
      let t : TableId := ⟨p.tables.size⟩
      ((), (p.addTable (tbl p)).modifySymbol s fun x => { x with members := some t })
  keeps p _ := by
    split
    · exact .refl p
    · next hm =>
      exact (Extends.table p (tbl p) (h p)).trans
        (.members _ s _ (Option.not_isSome_iff_eq_none.mp hm))

/-- Makes a symbol for an object literal with an empty table of members and runs a query
that owns it. -/
def withShape (shape : Symbol) (body : (o : LiteralShape) → Query src (o :: own) α)
    (h : shape.scope = none := by rfl)
    (hliteral : shape.isObjectLiteral = true := by exact Symbol.isObjectLiteral_of_eq rfl rfl) :
    Query src own α where
  run p :=
    let o : LiteralShape := ⟨⟨p.symbols.size⟩, ⟨p.tables.size⟩⟩
    (body o).run ((p.addTable {}).addSymbol { shape with members := some o.table })
  keeps p hp := by
    have table := @Extends.table src p {} fun _ he => absurd he List.not_mem_nil
    have symbol := @Extends.symbol src (p.addTable {}) { shape with members := some ⟨p.tables.size⟩ } h
    refine (table.trans symbol).trans ((body _).keeps _ fun o ho => ?_)
    rcases List.mem_cons.mp ho with rfl | ho
    · exact .new hliteral
    · exact (hp o ho).extends (table.trans symbol)

/-- Says which shape a node has. -/
def setShapeAt (n : NodeId) (s : SymbolId) : Query src own Unit :=
  ⟨fun p => ((), p.markShape n s), fun p _ => .shape p n s⟩

/-- Notes an expression whose value leaves the program. -/
def addEffect (n : NodeId) : Query src own Unit :=
  ⟨fun p => ((), { p with effects := p.effects.push n }), fun p _ => .effect p n⟩

/-- Says what an alias stands for. -/
def setTarget (s : SymbolId) (next? : Option SymbolId) : Query src own Unit :=
  ⟨fun p => ((), p.modifySymbol s fun x => { x with target := some next? }),
    fun p _ => .target p s next?⟩

end Query
end Moniker
