/-
# What a visit can do

Finding declarations changes a program in a few ways only.  `Change` lists those
that do not add to the symbols being collected, and `Run` is what a whole visit
below a node `r` amounts to: changes, symbols introduced into scopes, and visits
with a collection of their own (`Run.nested`).

Everything named in a step lies below `r` and stands where names are declared, and the
scopes that names are declared in fit the file (`Fits`).  What holds of every program
that visits lead to is proved over these steps, one by one, and never by opening the
visits again.

A visit keeps what it finds (`Run.keeps`): the scopes stay where they are in the
tree of scopes, the symbols keep their names, scopes and first declarations, and a
name that a module exports stays exported.
-/

import Moniker.Proofs.Binding.Places
import Moniker.Proofs.State

namespace Moniker

/-- Two versions of a symbol that differ at most in members and heritage. -/
structure Symbol.SameCore (x y : Symbol) : Prop where
  name : y.name = x.name
  traits : y.traits = x.traits
  decls : y.decls = x.decls
  scope : y.scope = x.scope
  owner : y.owner = x.owner
  specifier : y.specifier = x.specifier
  file : y.file = x.file
  target : y.target = x.target

/-- The symbol with one more declaration. -/
def Symbol.joined (x : Symbol) (traits : Traits) (name : NodeId) : Symbol :=
  { x with traits := x.traits.union traits, decls := x.decls ++ [name] }

/-- A later version of a module: what it exported is still exported. -/
structure Module.Grows (x y : Module) : Prop where
  file : y.file = x.file
  scope : y.scope = x.scope
  isScript : y.isScript = x.isScript
  isAmbient : y.isAmbient = x.isAmbient
  exports : ∀ name, (x.ownExport? name).isSome = true → (y.ownExport? name).isSome = true

namespace Binding

/-- May a declaration of these traits in a file land in the scope? -/
def Fits (src : Source) (p : Program) (file : FileId) (traits : Traits) (target : ScopeId) : Prop :=
  target = Program.globalScope ∨ traits.has .ambient = true ∨
    ∃ n, (p.scope target).node = some n ∧ src.fileOf n = file

/-- What surrounds a nested collection: an export statement, or the body of a
namespace or ambient module. -/
def Secluded (src : Source) (r r' : NodeId) : Prop :=
  ∃ x, src.Below r x ∧
    ((src.kind x = "export_statement" ∧ src.Below x r') ∨
      (src.kind x ∈ ["module", "internal_module"] ∧
        ∃ body, src.child? x "body" = some body ∧ src.Below body r'))

/-- The symbol is there and is no top-level name of a module. -/
def Inner (s : SymbolId) (p : Program) : Prop :=
  s.idx < p.symbols.size ∧
    ∀ t, (p.symbol s).scope = some t → t.idx < p.scopes.size ∧ (p.scope t).kind ≠ .ofModule

/-- The program with a new symbol in a scope. -/
def introduce (p : Program) (sym : Symbol) (target : ScopeId) (name : NodeId) : Program :=
  ((p.addSymbol sym).modifyScope target fun sc => sc.declare ⟨p.symbols.size⟩ sym).markDeclared name
    ⟨p.symbols.size⟩

/-- The program with one more declaration of a symbol of a scope. -/
def joinInto (p : Program) (target : ScopeId) (s : SymbolId) (traits : Traits) (name : NodeId) :
    Program :=
  ((p.modifySymbol s fun x => x.joined traits name).markDeclared name s).modifyScope target
    fun sc => sc.register s ((p.modifySymbol s fun x => x.joined traits name).symbol s)

/-- The changes of a program that a visit below `r` in a file makes apart from
collecting symbols. -/
inductive Change (src : Source) (file : FileId) (r : NodeId) : Program → Program → Prop where
  | scope (p : Program) (kind : ScopeKind) (outer : ScopeId) (n : NodeId) :
    outer.idx < p.scopes.size → src.Below r n →
    Change src file r p
      ((p.addScope { kind := kind, parent := some outer, node := some n }).modifyScope outer
        fun o => { o with children := o.children ++ [⟨p.scopes.size⟩] })
  | markScope (p : Program) (n : NodeId) (s : ScopeId) :
    s.idx < p.scopes.size → src.Below r n → Change src file r p (p.markScope n s)
  | markShape (p : Program) (n : NodeId) (s : SymbolId) :
    src.Below r n → Change src file r p (p.markShape n s)
  | markClass (p : Program) (n : NodeId) (s : SymbolId) :
    src.Below r n → Change src file r p (p.markClass n s)
  | markSpecifier (p : Program) (n : NodeId) :
    src.Below r n → Change src file r p (p.markSpecifier n)
  | table (p : Program) : Change src file r p (p.addTable {})
  | symbol (p : Program) (sym : Symbol) :
    sym.scope = none → (∀ d ∈ sym.decls, src.Below r d) → sym.target = none →
    Change src file r p (p.addSymbol sym)
  | touch (p : Program) (s : SymbolId) (f : Symbol → Symbol) :
    (∀ x : Symbol, x.SameCore (f x)) → Change src file r p (p.modifySymbol s f)
  | fill (p : Program) (s : SymbolId) (n : NodeId) :
    src.Below r n →
    Change src file r p
      (p.modifySymbol s fun x => if x.decls.isEmpty then { x with decls := [n] } else x)
  | alias_ (p : Program) (sym : Symbol) (n : NodeId) :
    sym.scope = none → sym.decls = [n] → src.Below r n → src.Spells n sym.name →
    sym.isAlias = true → src.AliasName n → sym.target = none →
    Change src file r p ((p.addSymbol sym).markDeclared n ⟨p.symbols.size⟩)
  | newMember (p : Program) (t : TableId) (text : String) (sym : Symbol) (n : NodeId) :
    sym.scope = none → sym.decls = [n] → src.Below r n → src.Spells n text → sym.name = text →
    src.MemberName n → (isLiteralName src n = true → sym.traits.has .quoted = true) →
    sym.target = none →
    Change src file r p
      (((p.addSymbol sym).addToTable t text ⟨p.symbols.size⟩).markDeclared n ⟨p.symbols.size⟩)
  | joinMember (p : Program) (t : TableId) (text : String) (s : SymbolId) (traits : Traits)
    (n : NodeId) :
    (text, s) ∈ (p.table t).entries → src.Below r n → src.Spells n text → src.MemberName n →
    (isLiteralName src n = true → traits.has .quoted = true) →
    traits.meets Source.lexicalTraits = false →
    Change src file r p
      ((p.modifySymbol s fun x => x.joined traits n).markDeclared n s)
  | member (p : Program) (t : TableId) (text : String) (s : SymbolId) :
    Inner s p → (p.symbol s).name = text → (p.symbol s).scope ≠ none →
    Change src file r p (p.addToTable t text s)
  | property (p : Program) (s cls : SymbolId) (isPrivate : Bool) :
    (p.symbol s).has .parameter = true →
    Change src file r p (p.modifySymbol s fun x =>
      { x with
        traits := (x.traits.insert .property).insertIf isPrivate .softPrivate
        owner := some cls })
  | join (p : Program) (target : ScopeId) (text : String) (s : SymbolId) (traits : Traits)
    (n : NodeId) :
    (p.scope target).own? text = some s → src.Below r n → Fits src p file traits target →
    src.Spells n text → src.Lexical traits n →
    Change src file r p (joinInto p target s traits n)
  | import_ (p : Program) (sym : Symbol) (target : ScopeId) (n : NodeId) :
    sym.scope = some target → sym.owner = none → sym.decls = [n] → sym.isAlias = true →
    src.Below r n → Fits src p file sym.traits target → src.Spells n sym.name →
    target.idx < p.scopes.size → src.AliasName n → sym.has .interfaceDecl = false →
    sym.target = none → Change src file r p (introduce p sym target n)
  | module (p : Program) (m : ModuleId) (f : Module → Module) :
    (∀ x : Module, x.Grows (f x)) → Change src file r p (p.modifyModule m f)
  | ambient (p : Program) (m : Module) :
    m.isAmbient = true → m.scope.idx < p.scopes.size → Change src file r p (p.addAmbient m)

/-- What a visit below `r` makes of a state; symbols declared in the scope `c` are
collected. -/
inductive Run (src : Source) (file : FileId) :
    Option ScopeId → NodeId → State → State → Prop where
  | refl {c r st} : Run src file c r st st
  | trans {c r st₁ st₂ st₃} :
    Run src file c r st₁ st₂ → Run src file c r st₂ st₃ → Run src file c r st₁ st₃
  | within {c r r' st₁ st₂} :
    src.Below r r' → Run src file c r' st₁ st₂ → Run src file c r st₁ st₂
  | change {c r l p q} : Change src file r p q → Run src file c r (l, p) (l, q)
  | introduce {c r l p} (sym : Symbol) (target : ScopeId) (n : NodeId) :
    sym.scope = some target → sym.owner = none → sym.decls = [n] → src.Below r n →
    Fits src p file sym.traits target → src.Spells n sym.name → target.idx < p.scopes.size →
    src.Lexical sym.traits n →
    (∀ e, (p.scope target).own? sym.name = some e →
      mergeable (p.symbol e).traits sym.traits = false) → sym.target = none →
    Run src file c r (l, p)
      (if c = some target then l ++ [⟨p.symbols.size⟩] else l, introduce p sym target n)
  | nested {c r r' l p found q} (s : ScopeId) :
    Secluded src r r' → Run src file (some s) r' ([], p) (found, q) →
    Run src file c r (l, p) (l, q)

end Binding

/-! ### What is kept -/

/-- A later version of a symbol. -/
structure Symbol.Grows (x y : Symbol) : Prop where
  name : y.name = x.name
  scope : y.scope = x.scope
  specifier : y.specifier = x.specifier
  traits : x.traits.Le y.traits
  head : x.decls ≠ [] → y.decls.head? = x.decls.head?
  decls : x.decls ⊆ y.decls

/-- A later version of a scope. -/
structure Scope.Grows (x y : Scope) : Prop where
  kind : y.kind = x.kind
  parent : y.parent = x.parent
  node : y.node = x.node
  children : x.children ⊆ y.children
  symbols : x.symbols ⊆ y.symbols

namespace Symbol.Grows

variable {x y z : Symbol}

theorem refl (x : Symbol) : Grows x x := ⟨rfl, rfl, rfl, .refl _, fun _ => rfl, fun _ h => h⟩

theorem trans (h₁ : Grows x y) (h₂ : Grows y z) : Grows x z where
  name := h₂.name.trans h₁.name
  scope := h₂.scope.trans h₁.scope
  specifier := h₂.specifier.trans h₁.specifier
  traits := h₁.traits.trans h₂.traits
  head h := by
    have hy : y.decls ≠ [] := fun h0 => h (List.head?_eq_none_iff.mp (by rw [← h₁.head h, h0]; rfl))
    exact (h₂.head hy).trans (h₁.head h)
  decls _ h := h₂.decls (h₁.decls h)

theorem of_sameCore (h : x.SameCore y) : Grows x y :=
  ⟨h.name, h.scope, h.specifier, by rw [h.traits]; exact .refl _, fun _ => by rw [h.decls],
    fun _ hd => h.decls ▸ hd⟩

theorem joined (traits : Traits) (n : NodeId) : Grows x (x.joined traits n) := by
  refine ⟨rfl, rfl, rfl, Traits.le_union_left, fun h => ?_, fun _ => List.mem_append_left _⟩
  cases hd : x.decls with
  | nil => exact absurd hd h
  | cons d ds => rw [Symbol.joined, hd]; rfl

end Symbol.Grows

namespace Scope.Grows

variable {x y z : Scope}

theorem refl (x : Scope) : Grows x x := ⟨rfl, rfl, rfl, fun _ h => h, fun _ h => h⟩

theorem trans (h₁ : Grows x y) (h₂ : Grows y z) : Grows x z where
  kind := h₂.kind.trans h₁.kind
  parent := h₂.parent.trans h₁.parent
  node := h₂.node.trans h₁.node
  children _ h := h₂.children (h₁.children h)
  symbols _ h := h₂.symbols (h₁.symbols h)

theorem register (s : SymbolId) (sym : Symbol) : Grows x (x.register s sym) :=
  ⟨rfl, rfl, rfl, fun _ h => h, fun _ h => h⟩

theorem declare (s : SymbolId) (sym : Symbol) : Grows x (x.declare s sym) :=
  ⟨rfl, rfl, rfl, fun _ h => h, fun _ h => List.mem_append_left _ h⟩

end Scope.Grows

namespace Module.Grows

variable {x y z : Module}

theorem refl (x : Module) : Grows x x := ⟨rfl, rfl, rfl, rfl, fun _ h => h⟩

theorem trans (h₁ : Grows x y) (h₂ : Grows y z) : Grows x z where
  file := h₂.file.trans h₁.file
  scope := h₂.scope.trans h₁.scope
  isScript := h₂.isScript.trans h₁.isScript
  isAmbient := h₂.isAmbient.trans h₁.isAmbient
  exports name h := h₂.exports name (h₁.exports name h)

theorem ownExport?_isSome {name : String} :
    (x.ownExport? name).isSome = true ↔ ∃ e ∈ x.exports, e.1 = name := by
  simp [ownExport?]

/-- The exported name is exported afterwards, and no name is lost. -/
theorem ownExport?_addExport {name other : String} {s : SymbolId}
    (h : other = name ∨ (x.ownExport? other).isSome = true) :
    ((x.addExport name s).ownExport? other).isSome = true := by
  rw [ownExport?_isSome] at h ⊢
  unfold addExport
  split
  · next hany =>
    obtain ⟨e, he, heq⟩ := List.any_eq_true.mp hany
    have heq : e.1 = name := by simpa using heq
    rcases h with rfl | ⟨d, hd, rfl⟩
    · exact ⟨(other, s), List.mem_map.mpr ⟨e, he, by simp [heq]⟩, rfl⟩
    · refine ⟨_, List.mem_map.mpr ⟨d, hd, rfl⟩, ?_⟩
      split
      · next hd' => simpa using Eq.symm (by simpa using hd')
      · rfl
  · rcases h with rfl | ⟨d, hd, rfl⟩
    · exact ⟨(other, s), List.mem_append_right _ List.mem_cons_self, rfl⟩
    · exact ⟨d, List.mem_append_left _ hd, rfl⟩

theorem addExport (name : String) (s : SymbolId) : Grows x (x.addExport name s) := by
  refine ⟨?_, ?_, ?_, ?_, fun _ h => ownExport?_addExport (.inr h)⟩ <;>
  · unfold Module.addExport
    split <;> rfl

end Module.Grows

namespace Program

/-- A later version of a program. -/
structure Grows (p q : Program) : Prop where
  symbols_le : p.symbols.size ≤ q.symbols.size
  symbol : ∀ s : SymbolId, s.idx < p.symbols.size → (p.symbol s).Grows (q.symbol s)
  scopes_le : p.scopes.size ≤ q.scopes.size
  scope : ∀ c : ScopeId, c.idx < p.scopes.size → (p.scope c).Grows (q.scope c)
  modules_le : p.modules.size ≤ q.modules.size
  module : ∀ m : ModuleId, m.idx < p.modules.size → (p.moduleInfo m).Grows (q.moduleInfo m)

namespace Grows

variable {p q r : Program}

/-- A change that touches neither symbols nor scopes nor modules. -/
theorem of_eq (hs : q.symbols = p.symbols) (hc : q.scopes = p.scopes) (hm : q.modules = p.modules) :
    Grows p q where
  symbols_le := by rw [hs]
  symbol s _ := by rw [Program.symbol, Program.symbol, hs]; exact .refl _
  scopes_le := by rw [hc]
  scope c _ := by rw [Program.scope, Program.scope, hc]; exact .refl _
  modules_le := by rw [hm]
  module m _ := by rw [moduleInfo, moduleInfo, hm]; exact .refl _

theorem refl (p : Program) : Grows p p := of_eq rfl rfl rfl

theorem trans (h₁ : Grows p q) (h₂ : Grows q r) : Grows p r where
  symbols_le := h₁.symbols_le.trans h₂.symbols_le
  symbol s hs := (h₁.symbol s hs).trans (h₂.symbol s (hs.trans_le h₁.symbols_le))
  scopes_le := h₁.scopes_le.trans h₂.scopes_le
  scope c hc := (h₁.scope c hc).trans (h₂.scope c (hc.trans_le h₁.scopes_le))
  modules_le := h₁.modules_le.trans h₂.modules_le
  module m hm := (h₁.module m hm).trans (h₂.module m (hm.trans_le h₁.modules_le))

theorem addSymbol (sym : Symbol) : Grows p (p.addSymbol sym) where
  symbols_le := by simp
  symbol s hs := by rw [symbol_addSymbol, if_neg hs.ne]; exact .refl _
  scopes_le := le_rfl
  scope _ _ := .refl _
  modules_le := le_rfl
  module _ _ := .refl _

theorem modifySymbol {f : Symbol → Symbol} (s : SymbolId) (hf : ∀ x : Symbol, x.Grows (f x)) :
    Grows p (p.modifySymbol s f) where
  symbols_le := by simp
  symbol t _ := by
    rw [symbol_modifySymbol]
    split
    · exact hf _
    · exact .refl _
  scopes_le := le_rfl
  scope _ _ := .refl _
  modules_le := le_rfl
  module _ _ := .refl _

theorem addScope (sc : Scope) : Grows p (p.addScope sc) where
  symbols_le := le_rfl
  symbol _ _ := .refl _
  scopes_le := by simp
  scope c hc := by rw [scope_addScope, if_neg hc.ne]; exact .refl _
  modules_le := le_rfl
  module _ _ := .refl _

theorem modifyScope {f : Scope → Scope} (c : ScopeId) (hf : ∀ x : Scope, x.Grows (f x)) :
    Grows p (p.modifyScope c f) where
  symbols_le := le_rfl
  symbol _ _ := .refl _
  scopes_le := by simp
  scope d _ := by
    rw [scope_modifyScope]
    split
    · exact hf _
    · exact .refl _
  modules_le := le_rfl
  module _ _ := .refl _

theorem modifyModule {f : Module → Module} (m : ModuleId) (hf : ∀ x : Module, x.Grows (f x)) :
    Grows p (p.modifyModule m f) where
  symbols_le := le_rfl
  symbol _ _ := .refl _
  scopes_le := le_rfl
  scope _ _ := .refl _
  modules_le := by simp
  module k _ := by
    rw [moduleInfo_modifyModule]
    split
    · exact hf _
    · exact .refl _

/-- One more module. -/
theorem pushModule (m : Module) (hs : q.symbols = p.symbols) (hc : q.scopes = p.scopes)
    (hm : q.modules = p.modules.push m) : Grows p q where
  symbols_le := by rw [hs]
  symbol s _ := by rw [Program.symbol, Program.symbol, hs]; exact .refl _
  scopes_le := by rw [hc]
  scope c _ := by rw [Program.scope, Program.scope, hc]; exact .refl _
  modules_le := by simp [hm]
  module k hk := by
    rw [moduleInfo, moduleInfo, hm, getD_push, if_neg hk.ne]
    exact .refl _

end Grows
/-- No alias has been followed. -/
def Unfollowed (p : Program) : Prop := ∀ s, (p.symbol s).target = none

theorem Unfollowed.addSymbol {p : Program} {sym : Symbol} (h : p.Unfollowed)
    (hsym : sym.target = none) : (p.addSymbol sym).Unfollowed := by
  intro s
  rw [symbol_addSymbol]
  split
  · exact hsym
  · exact h s

theorem Unfollowed.modifySymbol {p : Program} {f : Symbol → Symbol} (h : p.Unfollowed) (s : SymbolId)
    (hf : ∀ x : Symbol, (f x).target = x.target) : (p.modifySymbol s f).Unfollowed := by
  intro t
  rw [symbol_modifySymbol]
  split
  · exact (hf _).trans (h t)
  · exact h t

end Program

namespace Binding

open Program (Grows)

variable {src : Source} {file : FileId} {r : NodeId} {c : Option ScopeId} {p q : Program}
  {st st' : State}

theorem grows_introduce (sym : Symbol) (target : ScopeId) (n : NodeId) :
    Grows p (introduce p sym target n) :=
  ((Grows.addSymbol sym).trans (.modifyScope target fun _ => .declare _ sym)).trans (.of_eq rfl rfl rfl)

theorem grows_joinInto (target : ScopeId) (s : SymbolId) (traits : Traits) (n : NodeId) :
    Grows p (joinInto p target s traits n) := by
  have joined : Grows p ((p.modifySymbol s fun x => x.joined traits n).markDeclared n s) :=
    (Grows.modifySymbol s fun _ => .joined traits n).trans (.of_eq rfl rfl rfl)
  exact joined.trans (.modifyScope target fun _ => .register _ _)

theorem Change.grows (h : Change src file r p q) : Grows p q := by
  cases h with
  | scope kind outer n _ _ =>
    refine (Grows.addScope _).trans (.modifyScope outer fun x => ?_)
    exact ⟨rfl, rfl, rfl, fun _ h => List.mem_append_left _ h, fun _ h => h⟩
  | markScope | markShape | markClass | markSpecifier | table | member => exact .of_eq rfl rfl rfl
  | symbol sym _ _ => exact .addSymbol sym
  | touch s f hf => exact .modifySymbol s fun x => .of_sameCore (hf x)
  | fill s n _ =>
    refine .modifySymbol s fun x => ?_
    split
    · next h =>
      have hnil := List.isEmpty_iff.mp h
      exact ⟨rfl, rfl, rfl, .refl _, fun h' => absurd hnil h', fun _ hd => by simp [hnil] at hd⟩
    · exact .refl _
  | alias_ sym n _ _ _ => exact (Grows.addSymbol sym).trans (.of_eq rfl rfl rfl)
  | newMember t text sym n _ _ _ => exact (Grows.addSymbol sym).trans (.of_eq rfl rfl rfl)
  | joinMember t text s traits n _ _ =>
    exact (Grows.modifySymbol s fun _ => .joined traits n).trans (.of_eq rfl rfl rfl)
  | property s cls isPrivate _ =>
    refine .modifySymbol s fun x => ⟨rfl, rfl, rfl, ?_, fun _ => rfl, fun _ h => h⟩
    exact Traits.le_insert.trans Traits.le_insertIf
  | join target text s traits n _ _ _ => exact grows_joinInto target s traits n
  | import_ sym target n _ _ _ _ _ _ => exact grows_introduce sym target n
  | module m f hf => exact .modifyModule m hf
  | ambient m _ _ => exact .pushModule m rfl rfl rfl

/-- **A visit keeps what there is.** -/
theorem Run.grows (h : Run src file c r st st') : Grows st.2 st'.2 := by
  induction h with
  | refl => exact .refl _
  | trans _ _ ih₁ ih₂ => exact ih₁.trans ih₂
  | within _ _ ih => exact ih
  | change h => exact h.grows
  | introduce sym target n _ _ _ _ _ => exact grows_introduce sym target n
  | nested s _ _ ih => exact ih

/-- Changes of symbols follow no alias. -/
theorem Change.unfollowed (h : Change src file r p q) (hp : p.Unfollowed) : q.Unfollowed := by
  cases h with
  | symbol _ _ _ htarget | alias_ _ _ _ _ _ _ _ _ htarget
  | newMember _ _ _ _ _ _ _ _ _ _ _ htarget | import_ _ _ _ _ _ _ _ _ _ _ _ _ _ htarget =>
    exact hp.addSymbol htarget
  | touch s _ hf => exact hp.modifySymbol s fun x => (hf x).target
  | fill s =>
    refine hp.modifySymbol s fun x => ?_
    split <;> rfl
  | joinMember _ _ s | property s | join _ _ s => exact hp.modifySymbol s fun _ => rfl
  | _ => exact hp

/-- **A visit follows no alias.** -/
theorem Run.unfollowed (h : Run src file c r st st') (hp : st.2.Unfollowed) : st'.2.Unfollowed := by
  induction h with
  | refl => exact hp
  | trans _ _ ih₁ ih₂ => exact ih₂ (ih₁ hp)
  | within _ _ ih => exact ih hp
  | change h => exact h.unfollowed hp
  | introduce _ _ _ _ _ _ _ _ _ _ _ _ htarget => exact hp.addSymbol htarget
  | nested _ _ _ ih => exact ih hp

theorem Inner.grows {s : SymbolId} (h : Grows p q) (hs : Inner s p) : Inner s q := by
  refine ⟨hs.1.trans_le h.symbols_le, fun t ht => ?_⟩
  rw [(h.symbol s hs.1).scope] at ht
  obtain ⟨hlt, hkind⟩ := hs.2 t ht
  exact ⟨hlt.trans_le h.scopes_le, by rwa [(h.scope t hlt).kind]⟩

theorem Secluded.below {r' : NodeId} (h : Secluded src r r') : src.Below r r' := by
  obtain ⟨x, hx, ⟨_, hr⟩ | ⟨_, body, hbody, hr⟩⟩ := h
  · exact hx.trans hr
  · exact (hx.child? hbody).trans hr

theorem symbol_introduce {sym : Symbol} {target : ScopeId} {n : NodeId} :
    (introduce p sym target n).symbol ⟨p.symbols.size⟩ = sym :=
  (Program.symbol_addSymbol _).trans (if_pos rfl)

theorem symbols_size_introduce {sym : Symbol} {target : ScopeId} {n : NodeId} :
    (introduce p sym target n).symbols.size = p.symbols.size + 1 :=
  Program.symbols_size_addSymbol

/-- **What is collected was declared in the scope collected for.** -/
theorem Run.scope_of_collected {t : ScopeId} (h : Run src file (some t) r st st') {s : SymbolId}
    (hs : s ∈ st'.1) :
    s ∈ st.1 ∨ (s.idx < st'.2.symbols.size ∧ (st'.2.symbol s).scope = some t) := by
  generalize hc : some t = c at h
  induction h with
  | refl => exact .inl hs
  | trans _ h₂ ih₁ ih₂ =>
    rcases ih₂ hs hc with hs | hs
    · rcases ih₁ hs hc with hs | ⟨hlt, hscope⟩
      · exact .inl hs
      · refine .inr ⟨hlt.trans_le h₂.grows.symbols_le, ?_⟩
        rw [(h₂.grows.symbol s hlt).scope]
        exact hscope
    · exact .inr hs
  | within _ _ ih => exact ih hs hc
  | change _ => exact .inl hs
  | introduce sym target n hscope _ _ _ _ =>
    subst hc
    dsimp only at hs ⊢
    split at hs
    · next heq =>
      rcases List.mem_append.mp hs with hs | hs
      · exact .inl hs
      · rw [List.mem_singleton.mp hs, symbol_introduce, symbols_size_introduce, heq]
        exact .inr ⟨Nat.lt_succ_self _, hscope⟩
    · exact .inl hs
  | nested s' _ _ _ => exact .inl hs

end Binding
end Moniker
