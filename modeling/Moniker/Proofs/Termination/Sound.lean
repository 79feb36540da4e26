/-
# The graph of types while questions are answered

`Typing.Sound` is what holds between any two steps: types hold on to types there are, the
parts of a union came before it, no type is a part of its own parts, symbols made by the way
lead to no other symbol, aliases lead where they led, no answer has been cut off, and a search
without an end has met a circle.  A step may give objects their signatures and arrays their
elements, but what such a search sees stays (`Program.Retains`), so a circle stays a circle.

An array is made before its elements are worked out.  Until it has them nothing may refer to
it (`Scene.building`), so it cannot come to be an element of itself.

`Query.Safe` puts this together for a query at a program, with what is known of the value.
The order of the arguments follows the order of the steps: what is known of a value is
known of the program after it, and stays known (`Scene.Sees.retained`).
-/

import Moniker.Proofs.Bundling.Aliases
import Moniker.Proofs.Termination.Searches
import Moniker.Proofs.Typing.Memory

namespace Moniker

open Typing (Memo)

/-! ### Traits that lead on -/

namespace Traits

/-- What stands for another symbol or for the type of one. -/
def leading : Traits := aliasing.union (of [.aliasDecl])

theorem meets_aliasing_eq_false {a : Traits} (h : a.meets leading = false) :
    a.meets aliasing = false := by
  rw [← Bool.not_eq_true] at h ⊢
  intro ha
  obtain ⟨i, hi, halias⟩ := meets_iff.mp ha
  exact h (meets_iff.mpr ⟨i, hi, le_union_left i halias⟩)

end Traits

/-! ### What types hold on to -/

/-- The types a value may be taken from, and those that are extended, all have the property. -/
structure TypeInfo.Within (info : TypeInfo) (P : TypeId → Prop) : Prop where
  parts : ∀ u ∈ info.parts, P u
  bases : ∀ u ∈ info.bases, P u
  typeArgs : ∀ u ∈ info.typeArgs, P u
  results : ∀ sig ∈ info.signatures, P sig.result
  instance? : ∀ u ∈ info.instance?, P u

/-- What the search for a signature sees of a type stays, whatever an object or an array may
still get, and a type that has the name of an alias keeps one. -/
structure TypeInfo.Retains (x y : TypeInfo) : Prop where
  kind : y.kind = x.kind
  alias? : x.alias? ≠ none → y.alias? ≠ none
  seen : x.kind ≠ .object → x.kind ≠ .array → y.signatures = x.signatures ∧
    y.parts = x.parts ∧ y.constraint = x.constraint ∧ y.typeArgs = x.typeArgs

namespace TypeInfo

variable {x y z : TypeInfo} {P Q : TypeId → Prop}

theorem Within.mono (h : x.Within P) (hPQ : ∀ u, P u → Q u) : x.Within Q where
  parts u hu := hPQ u (h.parts u hu)
  bases u hu := hPQ u (h.bases u hu)
  typeArgs u hu := hPQ u (h.typeArgs u hu)
  results sig hsig := hPQ sig.result (h.results sig hsig)
  instance? u hu := hPQ u (h.instance? u hu)

namespace Retains

theorem refl (x : TypeInfo) : Retains x x := ⟨rfl, id, fun _ _ => ⟨rfl, rfl, rfl, rfl⟩⟩

theorem trans (h₁ : Retains x y) (h₂ : Retains y z) : Retains x z where
  kind := h₂.kind.trans h₁.kind
  alias? h := h₂.alias? (h₁.alias? h)
  seen hobject harray := by
    obtain ⟨hs₁, hp₁, hc₁, ha₁⟩ := h₁.seen hobject harray
    obtain ⟨hs₂, hp₂, hc₂, ha₂⟩ := h₂.seen (by rwa [h₁.kind]) (by rwa [h₁.kind])
    exact ⟨hs₂.trans hs₁, hp₂.trans hp₁, hc₂.trans hc₁, ha₂.trans ha₁⟩

/-- An object may get anything but another kind or name. -/
theorem of_object (hx : x.kind = .object) (h : y.kind = x.kind) (halias : y.alias? = x.alias?) :
    Retains x y := ⟨h, fun hx => halias ▸ hx, fun hobject => absurd hx hobject⟩

theorem of_array (hx : x.kind = .array) (h : y.kind = x.kind) (halias : y.alias? = x.alias?) :
    Retains x y := ⟨h, fun hx => halias ▸ hx, fun _ harray => absurd hx harray⟩

theorem edges_eq {u : TypeId} (h : Retains x y) (hu : u ∈ Program.signatureEdges x) :
    y.signatures = x.signatures ∧ Program.signatureEdges y = Program.signatureEdges x := by
  have hkind : x.kind ≠ .object ∧ x.kind ≠ .array := by
    constructor
    all_goals
      intro heq
      rw [Program.signatureEdges, heq] at hu
      exact List.not_mem_nil hu
  obtain ⟨hsignatures, hparts, hconstraint, -⟩ := h.seen hkind.1 hkind.2
  exact ⟨hsignatures, by
    rw [Program.signatureEdges, Program.signatureEdges, h.kind, hparts, hconstraint]⟩

end Retains
end TypeInfo

namespace Program

variable {p q r : Program} {t u : TypeId}

/-- What the search for a signature sees of the types there are stays. -/
structure Retains (p q : Program) : Prop where
  size : p.types.size ≤ q.types.size
  types : ∀ t : TypeId, t.idx < p.types.size → (p.typeInfo t).Retains (q.typeInfo t)

/-- The type is one there is. -/
def Knows (p : Program) (t : TypeId) : Prop := t.idx < p.types.size

/-- All types of a list, or the type that may be there, are types there are. -/
def KnowsAll {γ : Type} [Membership TypeId γ] (p : Program) (ts : γ) : Prop := ∀ t ∈ ts, p.Knows t

theorem Knows.retained (h : p.Knows t) (hpq : p.Retains q) : q.Knows t := h.trans_le hpq.size

namespace Retains

theorem refl (p : Program) : p.Retains p := ⟨le_rfl, fun _ _ => .refl _⟩

theorem trans (h₁ : p.Retains q) (h₂ : q.Retains r) : p.Retains r where
  size := h₁.size.trans h₂.size
  types t ht := (h₁.types t ht).trans (h₂.types t (ht.trans_le h₁.size))

theorem of_types_eq (h : q.types = p.types) : p.Retains q :=
  ⟨(congrArg Array.size h).ge, fun t _ => by rw [typeInfo, typeInfo, h]; exact .refl _⟩

theorem passes (h : p.Retains q) (hp : p.Passes t u) : q.Passes t u := by
  obtain ⟨hsignatures, hedges⟩ := (h.types t hp.idx_lt).edges_eq hp.2
  exact ⟨hsignatures.trans hp.1, hedges ▸ hp.2⟩

/-- A circle stays a circle. -/
theorem circles (h : p.Retains q) (hp : p.Circles t) : q.Circles t :=
  hp.lift id fun _ _ => h.passes

end Retains
end Program

/-! ### Parts -/

namespace Program

variable {p q : Program} {t u : TypeId} {x y : TypeInfo}

/-- The second type is one of the parts of the first. -/
def HasPart (p : Program) (t u : TypeId) : Prop := u ∈ (p.typeInfo t).parts

/-- What a union or an intersection is made of: different parts, none of which is of its own
kind and has no name.  They are two at least, but for a composite that is used with type
arguments: it has these and no parts. -/
structure Composes (p : Program) (info : TypeInfo) : Prop where
  nodup : info.parts.Nodup
  many : 2 ≤ info.parts.length ∨ info.parts = [] ∧ info.typeArgs ≠ []
  named : ∀ u ∈ info.parts, (p.typeInfo u).kind = info.kind → (p.typeInfo u).alias? ≠ none

/-- Kinds stay, and what has the name of an alias keeps one. -/
structure KeepsNames (p q : Program) (u : TypeId) : Prop where
  kind : (q.typeInfo u).kind = (p.typeInfo u).kind
  alias? : (p.typeInfo u).alias? ≠ none → (q.typeInfo u).alias? ≠ none

theorem Retains.keepsNames (h : p.Retains q) (hu : p.Knows u) : p.KeepsNames q u :=
  ⟨(h.types u hu).kind, (h.types u hu).alias?⟩

theorem Composes.congr (h : p.Composes x) (hkeeps : ∀ u ∈ x.parts, p.KeepsNames q u)
    (hkind : y.kind = x.kind) (hsame : y.parts = x.parts ∧ y.typeArgs = x.typeArgs) :
    q.Composes y := by
  obtain ⟨hparts, hargs⟩ := hsame
  refine ⟨hparts ▸ h.nodup, by rw [hparts, hargs]; exact h.many, fun u hu hu' => ?_⟩
  rw [hparts] at hu
  rw [(hkeeps u hu).kind, hkind] at hu'
  exact (hkeeps u hu).alias? (h.named u hu hu')

theorem Composes.retained (h : p.Composes x) (hparts : ∀ u ∈ x.parts, p.Knows u)
    (hpq : p.Retains q) : q.Composes x :=
  h.congr (fun u hu => hpq.keepsNames (hparts u hu)) rfl ⟨rfl, rfl⟩

end Program

/-- A relation that changes only at a point that nothing leads to has no new circles. -/
theorem acyclic_of_source {α : Type} {r r' : α → α → Prop} {t : α} (h : ∀ u, ¬ Relation.TransGen r u u)
    (hin : ∀ u, ¬ r' u t) (hold : ∀ u v, u ≠ t → r' u v → r u v) (u : α) :
    ¬ Relation.TransGen r' u u := by
  have hne {u v : α} (huv : Relation.TransGen r' u v) : v ≠ t := by
    rintro rfl
    obtain ⟨w, -, hw⟩ := Relation.TransGen.tail'_iff.mp huv
    exact hin w hw
  have hlift {u v : α} (hu : u ≠ t) (huv : Relation.TransGen r' u v) : Relation.TransGen r u v := by
    induction huv with
    | single hstep => exact .single (hold _ _ hu hstep)
    | tail hfirst hstep ih => exact ih.tail (hold _ _ (hne hfirst) hstep)
  exact fun hcircle => h u (hlift (hne hcircle) hcircle)

/-! ### The scene -/

/-- Where an alias leads in one step, if the symbol is one. -/
def Program.aliasEdge (p : Program) (s : SymbolId) : Option (Option SymbolId) :=
  if (p.symbol s).isAlias then some (p.aliasStep? (p.symbol s)) else none

/-- How far answering has come: the nodes and symbols that were there when it began and where
aliases lead, the questions that are open, and the arrays whose elements are being worked out. -/
structure Typing.Scene where
  nodes : Nat
  symbols : Nat
  aliasEdge : SymbolId → Option (Option SymbolId)
  isOpen : Pending → Bool
  building : List TypeId

namespace Typing.Scene

variable {c : Scene} {p q : Program} {t u : TypeId}

/-- The type is one there is, and no array without its elements. -/
def Sees (c : Scene) (p : Program) (t : TypeId) : Prop := p.Knows t ∧ t ∉ c.building

/-- All types of a list, or the type that may be there, are seen. -/
def SeesAll {γ : Type} [Membership TypeId γ] (c : Scene) (p : Program) (ts : γ) : Prop :=
  ∀ t ∈ ts, c.Sees p t

/-- The result of a signature is seen. -/
def SeesResult (c : Scene) (p : Program) (sig : Signature) : Prop := c.Sees p sig.result

/-- The results of all signatures of a list, or of the one that may be there, are seen. -/
def SeesResults {γ : Type} [Membership Signature γ] (c : Scene) (p : Program) (sigs : γ) : Prop :=
  ∀ sig ∈ sigs, c.SeesResult p sig

/-- The scene in which the elements of an array are worked out. -/
def hide (c : Scene) (t : TypeId) : Scene := { c with building := t :: c.building }

theorem Sees.retained (h : c.Sees p t) (hpq : p.Retains q) : c.Sees q t :=
  ⟨h.1.retained hpq, h.2⟩

theorem SeesAll.retained {γ : Type} [Membership TypeId γ] {ts : γ} (h : c.SeesAll p ts)
    (hpq : p.Retains q) : c.SeesAll q ts := fun t ht => (h t ht).retained hpq

theorem SeesResults.retained {γ : Type} [Membership Signature γ] {sigs : γ}
    (h : c.SeesResults p sigs) (hpq : p.Retains q) : c.SeesResults q sigs :=
  fun sig hsig => (h sig hsig).retained hpq

theorem seesAll_nil : c.SeesAll p ([] : List TypeId) := fun _ h => nomatch h

theorem seesAll_none : c.SeesAll p (none : Option TypeId) := fun _ h => nomatch h

theorem seesAll_some (h : c.Sees p t) : c.SeesAll p (some t) := by
  intro u hu
  rwa [← Option.some.inj hu]

theorem seesAll_pair (ht : c.Sees p t) (hu : c.Sees p u) : c.SeesAll p [t, u] := by
  intro v hv
  rcases List.mem_cons.mp hv with rfl | hv
  · exact ht
  · rwa [List.mem_singleton.mp hv]

/-- What was seen before an array is made is seen while its elements are worked out. -/
theorem SeesAll.hide {ts : List TypeId} (h : c.SeesAll p ts) (ht : p.types.size ≤ t.idx) :
    (c.hide t).SeesAll p ts := by
  refine fun u hu => ⟨(h u hu).1, fun hmem => ?_⟩
  rcases List.mem_cons.mp hmem with rfl | hmem
  · exact absurd (h u hu).1 (not_lt.mpr ht)
  · exact (h u hu).2 hmem

end Typing.Scene

/-! ### The invariant -/

/-- The marks of answers that have no worth. -/
def Program.marks (p : Program) : Bool × Bool := (p.cut, p.endless)

/-- What holds of the symbols: those made by the way lead to no other, aliases lead where they
led, and what is remembered of one is where it leads. -/
structure Typing.Settled (c : Scene) (p : Program) : Prop where
  symbols_le : c.symbols ≤ p.symbols.size
  fresh : ∀ s : SymbolId, c.symbols ≤ s.idx → (p.symbol s).traits.meets Traits.leading = false
  aliasEdge : ∀ s, p.aliasEdge s = c.aliasEdge s
  targets : ∀ s next?, (p.symbol s).target = some next? → next? = p.aliasStep? (p.symbol s)

/-- What holds between any two steps of answering. -/
structure Typing.Sound (c : Scene) (p : Program) : Prop extends Settled c p where
  nodes_le : c.nodes ≤ p.source.nodes.size
  referenced : ∀ (n : NodeId) (s : SymbolId), p.referenced[n]? = some s → s.idx < c.symbols
  pending : ∀ x, p.pending.contains x = c.isOpen x
  building : ∀ t ∈ c.building, p.Knows t
  infos : ∀ t, (p.typeInfo t).Within (c.Sees p)
  layered : p.Layered
  acyclic : ∀ t, ¬ Relation.TransGen p.HasPart t t
  composed : ∀ t, p.isComposite t = true → p.Composes (p.typeInfo t)
  memos : ∀ x t, p.recalled? x = some t → c.Sees p t
  cut : p.cut = false
  endless : p.endless = true → ∃ t, p.Circles t

/-- What is remembered has nothing to do with what the types are and which questions are open. -/
theorem Program.recalled?_aside {p : Program} {types : Array TypeInfo} {pending : KeySet Pending}
    {endless : Bool} (x : Memo) :
    ({ p with types := types, pending := pending, endless := endless } : Program).recalled? x =
      p.recalled? x := by
  rcases x with (_ | _ | _ | _ | _) | _ | _ <;> rfl

theorem Program.aliasStep?_congr {p q : Program} (h : q.frame = p.frame) (sym : Symbol) :
    q.aliasStep? sym = p.aliasStep? sym := by
  rw [← aliasStep?_frame, h, aliasStep?_frame]

namespace Typing.Settled

variable {c : Scene} {p q : Program} {s : SymbolId} {sym : Symbol}

theorem congr (h : Settled c p) (hsymbols : q.symbols = p.symbols) (hframe : q.frame = p.frame) :
    Settled c q := by
  have hsymbol (s : SymbolId) : q.symbol s = p.symbol s := by
    rw [Program.symbol, hsymbols, Program.symbol]
  refine ⟨h.symbols_le.trans_eq (congrArg Array.size hsymbols.symm), fun s hs => ?_, fun s => ?_,
    fun s next? hs => ?_⟩
  · rw [hsymbol]
    exact h.fresh s hs
  · rw [← h.aliasEdge s, Program.aliasEdge, hsymbol, Program.aliasStep?_congr hframe]
    rfl
  · rw [hsymbol] at hs
    rw [hsymbol, Program.aliasStep?_congr hframe]
    exact h.targets s next? hs

/-- Open questions and hidden arrays have nothing to do with symbols. -/
theorem elsewhere {c' : Scene} (h : Settled c p) (hsymbols : c'.symbols = c.symbols)
    (haliasEdge : c'.aliasEdge = c.aliasEdge) : Settled c' p where
  symbols_le := hsymbols ▸ h.symbols_le
  fresh s hs := h.fresh s (hsymbols ▸ hs)
  aliasEdge s := haliasEdge ▸ h.aliasEdge s
  targets := h.targets

/-- A symbol that leads nowhere. -/
theorem addSymbol (h : Settled c p) (hfresh : sym.traits.meets Traits.leading = false)
    (htarget : sym.target = none) : Settled c (p.addSymbol sym) := by
  have hstep (x : Symbol) : (p.addSymbol sym).aliasStep? x = p.aliasStep? x :=
    Program.aliasStep?_congr (p := p) (q := p.addSymbol sym) rfl x
  refine ⟨h.symbols_le.trans (Nat.le_of_lt Program.symbols_size_addSymbol.ge), fun s hs => ?_,
    fun s => ?_, fun s next? hs => ?_⟩
  · rw [Program.symbol_addSymbol]
    split
    · exact hfresh
    · exact h.fresh s hs
  · rw [← h.aliasEdge s, Program.aliasEdge, hstep, Program.symbol_addSymbol]
    split
    · next hnew =>
      -- Neither the symbol nor the absence of one is an alias.
      have halias : sym.isAlias = false := Traits.meets_aliasing_eq_false hfresh
      have hdefault : (p.symbol s).isAlias = false := by
        rw [Program.symbol_of_size_le hnew.ge]
        decide
      rw [halias, Program.aliasEdge, hdefault]
      rfl
    · rfl
  · rw [hstep]
    rw [Program.symbol_addSymbol] at hs ⊢
    split at hs
    · exact nomatch htarget.symm.trans hs
    · next hold =>
      rw [if_neg hold]
      exact h.targets s next? hs

/-- A change that keeps where a symbol leads. -/
theorem modifySymbol {f : Symbol → Symbol} (h : Settled c p) (m : SymbolId)
    (hleading : ∀ x, (f x).traits.meets Traits.leading = x.traits.meets Traits.leading)
    (halias : ∀ x, (f x).isAlias = x.isAlias)
    (hstep : ∀ (p : Program) x, p.aliasStep? (f x) = p.aliasStep? x)
    (htarget : ∀ next?, (f (p.symbol m)).target = some next? → next? = p.aliasStep? (p.symbol m)) :
    Settled c (p.modifySymbol m f) := by
  have hframe (x : Symbol) : (p.modifySymbol m f).aliasStep? x = p.aliasStep? x :=
    Program.aliasStep?_congr (p := p) (q := p.modifySymbol m f) rfl x
  refine ⟨h.symbols_le.trans Program.symbols_size_modifySymbol.ge, fun s hs => ?_, fun s => ?_,
    fun s next? hs => ?_⟩
  · rw [Program.symbol_modifySymbol]
    split
    · rw [hleading]
      exact h.fresh s hs
    · exact h.fresh s hs
  · rw [← h.aliasEdge s, Program.aliasEdge, hframe, Program.symbol_modifySymbol]
    split
    · rw [halias, hstep]
      rfl
    · rfl
  · rw [hframe]
    rw [Program.symbol_modifySymbol] at hs ⊢
    split at hs
    · next heq =>
      obtain rfl : m = s := congrArg SymbolId.mk heq.1
      rw [if_pos heq, hstep]
      exact htarget next? hs
    · next hother =>
      rw [if_neg hother]
      exact h.targets s next? hs

end Typing.Settled

namespace Typing.Sound

variable {c : Scene} {p q : Program} {x : Memo} {t : TypeId} {info : TypeInfo}

/-- A change that leaves the types alone. -/
theorem of_types_eq (h : Sound c p) (htypes : q.types = p.types) (hsource : q.source = p.source)
    (hsettled : Settled c q) (hreferenced : q.referenced = p.referenced)
    (hpending : q.pending = p.pending) (hmemos : ∀ x t, q.recalled? x = some t → c.Sees p t)
    (hmarks : q.marks = p.marks) : Sound c q := by
  have hretains : p.Retains q := .of_types_eq htypes
  have hinfo : q.typeInfo = p.typeInfo := by
    funext t
    rw [Program.typeInfo, Program.typeInfo, htypes]
  refine ⟨hsettled, h.nodes_le.trans_eq (by rw [hsource]),
    fun n s hs => h.referenced n s (by rwa [hreferenced] at hs), fun x => ?_,
    fun t ht => (h.building t ht).retained hretains, fun t => ?_, fun t ht => ?_, fun t => ?_,
    fun t ht => ?_, fun x t ht => (hmemos x t ht).retained hretains,
    (congrArg Prod.fst hmarks).trans h.cut, fun hq => ?_⟩
  · rw [hpending]
    exact h.pending x
  · rw [hinfo]
    exact (h.infos t).mono fun _ hu => hu.retained hretains
  · rw [hinfo]
    exact h.layered t (by rwa [Program.isComposite, hinfo] at ht)
  · have hparts : q.HasPart = p.HasPart := by
      funext t u
      rw [Program.HasPart, hinfo, Program.HasPart]
    rw [hparts]
    exact h.acyclic t
  · rw [Program.isComposite, hinfo] at ht
    rw [hinfo]
    exact (h.composed t ht).retained (fun u hu => ((h.infos t).parts u hu).1) hretains
  · obtain ⟨t, ht⟩ := h.endless ((congrArg Prod.snd hmarks).symm.trans hq)
    exact ⟨t, hretains.circles ht⟩

/-- A change that leaves alone what is remembered about types. -/
theorem of_memory (h : Sound c p) (hm : q.memory = p.memory) (hsource : q.source = p.source)
    (hsettled : Settled c q) (hreferenced : q.referenced = p.referenced)
    (hmarks : q.marks = p.marks) : Sound c q := by
  refine h.of_types_eq ?_ hsource hsettled hreferenced ?_ (fun x t ht => ?_) hmarks
  · exact show q.memory.types = p.memory.types by rw [hm]
  · exact show q.memory.pending = p.memory.pending by rw [hm]
  · rw [← Program.recalled?_memory, hm, Program.recalled?_memory] at ht
    exact h.memos x t ht

theorem recalled?_remember {y : Memo} {u : TypeId} (h : (p.remember t x).recalled? y = some u) :
    u = t ∨ p.recalled? y = some u := by
  by_cases hxy : y = x
  · subst hxy
    rcases y with (_ | _ | n | _ | _) | _ | _
    case answer.expression =>
      change (p.expressionTypes.insertIfNew n t)[n]? = some u at h
      rw [Table.getElem?_insertIfNew] at h
      split at h
      · exact .inl (Option.some.inj h).symm
      · exact .inr h
    all_goals exact .inl (Option.some.inj (Std.TreeMap.getElem?_insert_self.symm.trans h)).symm
  · exact .inr (by rwa [Program.recalled?_remember_of_ne t hxy] at h)

/-- One more type is remembered. -/
theorem remember (h : Sound c p) (ht : c.Sees p t) : Sound c (p.remember t x) := by
  have hsame : (p.remember t x).types = p.types ∧ (p.remember t x).source = p.source ∧
      (p.remember t x).symbols = p.symbols ∧ (p.remember t x).frame = p.frame ∧
      (p.remember t x).referenced = p.referenced ∧ (p.remember t x).pending = p.pending ∧
      (p.remember t x).marks = p.marks := by
    rcases x with (_ | _ | _ | _ | _) | _ | _ <;> exact ⟨rfl, rfl, rfl, rfl, rfl, rfl, rfl⟩
  obtain ⟨htypes, hsource, hsymbols, hframe, hreferenced, hpending, hmarks⟩ := hsame
  refine h.of_types_eq htypes hsource (h.toSettled.congr hsymbols hframe) hreferenced hpending
    (fun y u hu => ?_) hmarks
  rcases recalled?_remember hu with rfl | hold
  · exact ht
  · exact h.memos y u hold

/-- Questions are opened or closed. -/
theorem of_pending {pending : KeySet Pending} {isOpen : Pending → Bool} (h : Sound c p)
    (hpending : ∀ x, pending.contains x = isOpen x) :
    Sound { c with isOpen := isOpen } { p with pending := pending } := by
  have hsettled : Settled c { p with pending := pending } := h.toSettled.congr rfl rfl
  exact ⟨hsettled.elsewhere rfl rfl, h.nodes_le, h.referenced, hpending, h.building, h.infos,
    h.layered, h.acyclic,
    fun t ht => ⟨(h.composed t ht).nodup, (h.composed t ht).many, (h.composed t ht).named⟩,
    fun x t ht => h.memos x t ((Program.recalled?_aside x).symm.trans ht), h.cut, h.endless⟩

theorem typeInfo_push (t : TypeId) :
    ({ p with types := p.types.push info } : Program).typeInfo t =
      if t.idx = p.types.size then info else p.typeInfo t := getD_push

theorem retains_push : p.Retains { p with types := p.types.push info } := by
  refine ⟨by simp, fun t ht => ?_⟩
  rw [typeInfo_push, if_neg ht.ne]
  exact .refl _

/-- One more type, made of types there are.  It may be an array that is to get its elements. -/
theorem push {b : List TypeId} (h : Sound c p) (hinfo : info.Within (c.Sees p))
    (hcomposed : (info.kind == .union || info.kind == .intersection) = true → p.Composes info)
    (hb : ∀ t ∈ b, t ∈ c.building ∨ t.idx = p.types.size) :
    Sound { c with building := b } { p with types := p.types.push info } := by
  have hretains : p.Retains { p with types := p.types.push info } := retains_push
  have hsettled : Settled c { p with types := p.types.push info } := h.toSettled.congr rfl rfl
  have hsees : ∀ u, c.Sees p u →
      Scene.Sees { c with building := b } { p with types := p.types.push info } u := fun u hu =>
    ⟨hu.1.retained hretains, fun hmem => (hb u hmem).elim hu.2 (Nat.ne_of_lt hu.1)⟩
  refine ⟨hsettled.elsewhere rfl rfl, h.nodes_le, h.referenced, h.pending, fun t ht => ?_,
    fun t => ?_, fun t ht u hu => ?_, fun t => ?_, fun t ht => ?_,
    fun x t ht => hsees t (h.memos x t ((Program.recalled?_aside x).symm.trans ht)), h.cut,
    fun hendless => ?_⟩
  · rcases hb t ht with hold | hnew
    · exact (h.building t hold).retained hretains
    · exact (Nat.lt_succ_of_le hnew.le).trans_eq (Array.size_push ..).symm
  · rw [typeInfo_push]
    split
    · exact hinfo.mono hsees
    · exact (h.infos t).mono hsees
  · rw [Program.isComposite, typeInfo_push] at ht
    rw [typeInfo_push] at hu
    split at hu
    · next hnew => exact (hinfo.parts u hu).1.trans_eq hnew.symm
    · next hold =>
      rw [if_neg hold] at ht
      exact h.layered t ht u hu
  · -- Nothing has the new type as a part.
    refine acyclic_of_source (t := ⟨p.types.size⟩) h.acyclic (fun u hu => ?_) (fun u v hu huv => ?_) t
    · rw [Program.HasPart, typeInfo_push] at hu
      split at hu
      · exact absurd (hinfo.parts _ hu).1 (Nat.lt_irrefl _)
      · exact absurd ((h.infos u).parts _ hu).1 (Nat.lt_irrefl _)
    · rwa [Program.HasPart, typeInfo_push, if_neg fun heq => hu (congrArg TypeId.mk heq)] at huv
  · rw [Program.isComposite, typeInfo_push] at ht
    rw [typeInfo_push]
    split
    · next hnew =>
      rw [if_pos hnew] at ht
      exact (hcomposed ht).retained (fun u hu => (hinfo.parts u hu).1) hretains
    · next hold =>
      rw [if_neg hold] at ht
      exact (h.composed t ht).retained (fun u hu => ((h.infos t).parts u hu).1) hretains
  · obtain ⟨t, ht⟩ := h.endless hendless
    exact ⟨t, hretains.circles ht⟩

theorem typeInfo_modify {f : TypeInfo → TypeInfo} (u : TypeId) :
    ({ p with types := p.types.modify t.idx f } : Program).typeInfo u =
      if t.idx = u.idx ∧ u.idx < p.types.size then f (p.typeInfo u) else p.typeInfo u :=
  getD_modify f

theorem typeInfo_modify_of_ne {f : TypeInfo → TypeInfo} {u : TypeId} (h : u ≠ t) :
    ({ p with types := p.types.modify t.idx f } : Program).typeInfo u = p.typeInfo u := by
  rw [typeInfo_modify, if_neg fun heq => h (congrArg TypeId.mk heq.1.symm)]

theorem retains_modify {f : TypeInfo → TypeInfo} (h : (p.typeInfo t).Retains (f (p.typeInfo t))) :
    p.Retains { p with types := p.types.modify t.idx f } := by
  refine ⟨by simp, fun u _ => ?_⟩
  rw [typeInfo_modify]
  split
  · next heq =>
    obtain rfl : t = u := congrArg TypeId.mk heq.1
    exact h
  · exact .refl _

theorem keepsNames_modify {f : TypeInfo → TypeInfo}
    (hkind : (f (p.typeInfo t)).kind = (p.typeInfo t).kind)
    (halias : (p.typeInfo t).alias? ≠ none → (f (p.typeInfo t)).alias? ≠ none) (u : TypeId) :
    p.KeepsNames { p with types := p.types.modify t.idx f } u := by
  by_cases hu : u = t
  · subst hu
    constructor <;> rw [typeInfo_modify] <;> split
    · exact hkind
    · rfl
    · exact halias
    · exact id
  · have hsame := typeInfo_modify_of_ne (p := p) (f := f) hu
    exact ⟨congrArg TypeInfo.kind hsame, fun h => by rwa [hsame]⟩

/-- A type with changes that keep its kind, what a composite is made of, and all that the search
for a signature passes.  Arrays may have got their elements by it. -/
theorem modify {f : TypeInfo → TypeInfo} {b : List TypeId} (h : Sound c p) (hb : b ⊆ c.building)
    (hwithin : (f (p.typeInfo t)).Within (c.Sees p))
    (hkind : (f (p.typeInfo t)).kind = (p.typeInfo t).kind)
    (halias : (p.typeInfo t).alias? ≠ none → (f (p.typeInfo t)).alias? ≠ none)
    (hcomposite : p.isComposite t = true → (f (p.typeInfo t)).parts = (p.typeInfo t).parts ∧
      (f (p.typeInfo t)).typeArgs = (p.typeInfo t).typeArgs)
    (hacyclic : ∀ u, ¬ Relation.TransGen
      ({ p with types := p.types.modify t.idx f } : Program).HasPart u u)
    (hpasses : ∀ u v, p.Passes u v →
      ({ p with types := p.types.modify t.idx f } : Program).Passes u v) :
    Sound { c with building := b } { p with types := p.types.modify t.idx f } := by
  have hsize : ({ p with types := p.types.modify t.idx f } : Program).types.size = p.types.size :=
    Array.size_modify ..
  have hsettled : Settled c { p with types := p.types.modify t.idx f } := h.toSettled.congr rfl rfl
  have hsees : ∀ u, c.Sees p u →
      Scene.Sees { c with building := b } { p with types := p.types.modify t.idx f } u :=
    fun u hu => ⟨hu.1.trans_eq hsize.symm, fun hmem => hu.2 (hb hmem)⟩
  refine ⟨hsettled.elsewhere rfl rfl, h.nodes_le, h.referenced, h.pending,
    fun u hu => (h.building u (hb hu)).trans_eq hsize.symm, fun u => ?_, fun u hu v hv => ?_,
    hacyclic, fun u hu => ?_,
    fun x u hu => hsees u (h.memos x u ((Program.recalled?_aside x).symm.trans hu)), h.cut,
    fun hendless => ?_⟩
  · rw [typeInfo_modify]
    split
    · next heq =>
      obtain rfl : t = u := congrArg TypeId.mk heq.1
      exact hwithin.mono hsees
    · exact (h.infos u).mono hsees
  · rw [Program.isComposite, typeInfo_modify] at hu
    rw [typeInfo_modify] at hv
    split at hv
    · next heq =>
      obtain rfl : t = u := congrArg TypeId.mk heq.1
      rw [if_pos heq, hkind] at hu
      rw [(hcomposite hu).1] at hv
      exact h.layered t hu v hv
    · next hother =>
      rw [if_neg hother] at hu
      exact h.layered u hu v hv
  · have hkeeps (v : TypeId) : p.KeepsNames { p with types := p.types.modify t.idx f } v :=
      keepsNames_modify hkind halias v
    rw [Program.isComposite, (hkeeps u).kind] at hu
    refine (h.composed u hu).congr (fun v _ => hkeeps v) (hkeeps u).kind ?_
    rw [typeInfo_modify]
    split
    · next heq =>
      obtain rfl : t = u := congrArg TypeId.mk heq.1
      exact hcomposite hu
    · exact ⟨rfl, rfl⟩
  · obtain ⟨u, hu⟩ := h.endless hendless
    exact ⟨u, hu.lift id hpasses⟩

/-- A type with changes that keep its parts has the parts it had. -/
theorem hasPart_modify {f : TypeInfo → TypeInfo}
    (hparts : (f (p.typeInfo t)).parts = (p.typeInfo t).parts) :
    ({ p with types := p.types.modify t.idx f } : Program).HasPart = p.HasPart := by
  funext u v
  rw [Program.HasPart, typeInfo_modify]
  split
  · next heq =>
    obtain rfl : t = u := congrArg TypeId.mk heq.1
    rw [hparts]
    rfl
  · rfl

/-- A type with changes, as long as what a search sees and its parts stay. -/
theorem modify_retained {f : TypeInfo → TypeInfo} (h : Sound c p)
    (hwithin : (f (p.typeInfo t)).Within (c.Sees p))
    (hretains : (p.typeInfo t).Retains (f (p.typeInfo t)))
    (hparts : (f (p.typeInfo t)).parts = (p.typeInfo t).parts) :
    Sound c { p with types := p.types.modify t.idx f } := by
  refine h.modify (List.Subset.refl _) hwithin hretains.kind hretains.alias? (fun hcomposite => ?_)
    (by rw [hasPart_modify hparts]; exact h.acyclic) fun _ _ => (retains_modify hretains).passes
  have hkind : (p.typeInfo t).kind ≠ .object ∧ (p.typeInfo t).kind ≠ .array := by
    rcases Program.isComposite_iff.mp hcomposite with heq | heq <;> rw [heq] <;> decide
  exact ⟨hparts, (hretains.seen hkind.1 hkind.2).2.2.2⟩

/-- A type that is new since `p` may change: nothing in `p` is about it. -/
theorem retains_modify_new {f : TypeInfo → TypeInfo} (h : p.Retains q)
    (ht : p.types.size ≤ t.idx) : p.Retains { q with types := q.types.modify t.idx f } := by
  refine ⟨h.size.trans_eq (Array.size_modify ..).symm, fun u hu => ?_⟩
  rw [typeInfo_modify_of_ne fun heq => (hu.trans_le ht).ne (congrArg TypeId.idx heq)]
  exact h.types u hu

/-- A type parameter gets the constraint it has been without. -/
theorem constrain {bound : TypeId} (h : Sound c p) (hkind : (p.typeInfo t).kind = .param)
    (hfree : (p.typeInfo t).constraint = none) :
    Sound c { p with types := p.types.modify t.idx fun x => { x with constraint := some bound } } := by
  have ⟨hparts, hbases, hargs, hresults, hinstance⟩ := h.infos t
  refine h.modify (List.Subset.refl _) ⟨hparts, hbases, hargs, hresults, hinstance⟩ rfl id
    (fun _ => ⟨rfl, rfl⟩) (by rw [hasPart_modify rfl]; exact h.acyclic) fun u v huv => ?_
  -- The search has passed through other types alone.
  have hother : u ≠ t := by
    rintro rfl
    have hv := huv.2
    rw [Program.signatureEdges, hkind, hfree] at hv
    exact List.not_mem_nil hv
  rw [Program.Passes, typeInfo_modify_of_ne hother]
  exact huv

/-- An array gets the elements it has been without: as long as it was hidden nothing could have
it as a part, and its elements do not. -/
theorem setElements {elements : List TypeId} (h : Sound (c.hide t) p)
    (hkind : (p.typeInfo t).kind = .array) (helements : (c.hide t).SeesAll p elements) :
    Sound c { p with types := p.types.modify t.idx fun x => { x with parts := elements } } := by
  have hinfo := h.infos t
  refine h.modify (List.subset_cons_self _ _)
    ⟨helements, hinfo.bases, hinfo.typeArgs, hinfo.results, hinfo.instance?⟩ rfl id
    (fun hcomposite => ?_) ?_ fun u v huv => ?_
  · rcases Program.isComposite_iff.mp hcomposite with heq | heq <;> exact nomatch hkind.symm.trans heq
  · refine acyclic_of_source (t := t) h.acyclic (fun u hu => ?_) fun u v hu huv => ?_
    · rw [Program.HasPart, typeInfo_modify] at hu
      split at hu
      · exact (helements t hu).2 List.mem_cons_self
      · exact ((h.infos u).parts t hu).2 List.mem_cons_self
    · rwa [Program.HasPart, typeInfo_modify_of_ne hu] at huv
  · have hother : u ≠ t := by
      rintro rfl
      have hv := huv.2
      rw [Program.signatureEdges, hkind] at hv
      exact List.not_mem_nil hv
    rw [Program.Passes, typeInfo_modify_of_ne hother]
    exact huv

end Typing.Sound
end Moniker
