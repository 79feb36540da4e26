/-
# What answering a question leaves behind

A question that has been answered stays answered, and no question stays open
(`Program.Rested`).  Names get linked only while an access, an object literal or a
dotted type is worked out for the first time.  So once all of these have been worked
out (`Typing.AllLinked`), a program keeps its index: which nodes declare, which denote a
property, and the uses of each symbol (`Program.SameIndex`).

It keeps its answers as well: the type that each question was answered with, and of the
types there are everything but the name that an alias gives them
(`Program.SameAnswers`).  A rule does change the types it has made itself, and it tells
what a symbol declares before it is done.  So `Typing.Watch` says which types and which
answers are looked at.

All of this goes through the rules together.  `Query.Rests w` says that a query rests,
and that it keeps what `w` watches if all links are made.
-/

import Moniker.Typing.Answer
import Mathlib.Order.Nat

namespace Moniker

/-- The expressions that link names when they are worked out. -/
def Typing.linkingExpressions : List String :=
  ["member_expression", "subscript_expression", "object"]

/-- The type expressions that link names when they are worked out. -/
def Typing.linkingAnnotations : List String := ["lookup_type", "nested_type_identifier"]

/-- What links names at the node has been worked out. -/
structure Typing.Answered (src : Source) (n : NodeId) (p : Program) : Prop where
  expression : src.kind n ∈ linkingExpressions → p.expressionTypes.contains n = true
  meaning : src.kind n ∈ linkingAnnotations → p.annotationTypes.contains n = true

/-- Everything that links names has been worked out. -/
def Typing.AllLinked (src : Source) (p : Program) : Prop := ∀ n, Answered src n p

/-- What a type is remembered for. -/
inductive Typing.Memo where
  /-- A question that was answered. -/
  | answer (x : Pending)
  /-- A function-like node. -/
  | function (n : NodeId)
  /-- The name of an intrinsic type. -/
  | intrinsic (name : String)

/-- What is looked after while questions are answered. -/
structure Typing.Watch where
  /-- Everything that links names has been worked out. -/
  linked : Prop
  /-- The types below this number stay. -/
  types : Nat
  /-- What is remembered for these stays. -/
  memos : Memo → Prop

namespace Typing.Watch

/-- Nothing is watched, and links may be made. -/
def nothing : Watch := ⟨False, 0, fun _ => False⟩

/-- All that is remembered is watched, and the types below a number are. -/
def all (types : Nat) : Watch := ⟨True, types, fun _ => True⟩

/-- What is remembered for `x` is not watched. -/
def except (w : Watch) (x : Memo) : Watch := { w with memos := fun y => w.memos y ∧ y ≠ x }

end Typing.Watch

/-- What the watch says holds of the program. -/
def Typing.Ready (src : Source) (w : Watch) (p : Program) : Prop :=
  w.linked → AllLinked src p ∧ w.types ≤ p.types.size

/-- A type apart from the name of an alias for it. -/
def TypeInfo.bare (x : TypeInfo) : TypeInfo := { x with alias? := none, aliasArgs := [] }

/-- What a type keeps: all but the name of an alias for it, which it may get if it has
none. -/
structure TypeInfo.Kept (x y : TypeInfo) : Prop where
  bare : y.bare = x.bare
  aliased : x.alias? ≠ none → y.alias? = x.alias?

namespace TypeInfo.Kept

theorem refl (x : TypeInfo) : Kept x x := ⟨rfl, fun _ => rfl⟩

theorem trans {x y z : TypeInfo} (h₁ : Kept x y) (h₂ : Kept y z) : Kept x z where
  bare := h₂.bare.trans h₁.bare
  aliased h := (h₂.aliased (by rwa [h₁.aliased h])).trans (h₁.aliased h)

variable {x y : TypeInfo} (h : Kept x y)
include h

theorem kind_eq : y.kind = x.kind := show y.bare.kind = x.bare.kind by rw [h.bare]

theorem name_eq : y.name = x.name := show y.bare.name = x.bare.name by rw [h.bare]

theorem symbol_eq : y.symbol = x.symbol := show y.bare.symbol = x.bare.symbol by rw [h.bare]

theorem parts_eq : y.parts = x.parts := show y.bare.parts = x.bare.parts by rw [h.bare]

theorem members_eq : y.members = x.members := show y.bare.members = x.bare.members by rw [h.bare]

theorem bases_eq : y.bases = x.bases := show y.bare.bases = x.bare.bases by rw [h.bare]

end TypeInfo.Kept

namespace Program

open Typing (Watch Memo)

variable {w : Watch} {p q r : Program} {x y : Memo}

/-- The type that is remembered. -/
def recalled? (p : Program) : Memo → Option TypeId
  | .answer (.valueOf s) => p.valueTypes[s]?
  | .answer (.declaredBy s) => p.declaredTypes[s]?
  | .answer (.expression n) => p.expressionTypes[n]?
  | .answer (.position n) => p.positionTypes[n]?
  | .answer (.meaning n) => p.annotationTypes[n]?
  | .function n => p.functionTypes[n]?
  | .intrinsic name => p.intrinsics[name]?

/-- The program that remembers one more type. -/
def remember (p : Program) (t : TypeId) : Memo → Program
  | .answer (.valueOf s) => { p with valueTypes := p.valueTypes.insert s t }
  | .answer (.declaredBy s) => { p with declaredTypes := p.declaredTypes.insert s t }
  | .answer (.expression n) => { p with expressionTypes := p.expressionTypes.insertIfNew n t }
  | .answer (.position n) => { p with positionTypes := p.positionTypes.insert n t }
  | .answer (.meaning n) => { p with annotationTypes := p.annotationTypes.insert n t }
  | .function n => { p with functionTypes := p.functionTypes.insert n t }
  | .intrinsic name => { p with intrinsics := p.intrinsics.insert name t }

theorem recalled?_remember (t : TypeId) (h : ∀ n, x ≠ .answer (.expression n)) :
    (p.remember t x).recalled? x = some t := by
  rcases x with (_ | _ | n | _ | _) | _ | _
  case answer.expression => exact absurd rfl (h n)
  all_goals exact Std.TreeMap.getElem?_insert_self

theorem isSome_recalled?_remember (t : TypeId) :
    ((p.remember t x).recalled? x).isSome = true := by
  by_cases h : ∃ n, x = .answer (.expression n)
  · obtain ⟨n, rfl⟩ := h
    exact Std.TreeMap.contains_eq_isSome_getElem?.symm.trans Std.TreeMap.contains_insertIfNew_self
  · rw [recalled?_remember t fun n hn => h ⟨n, hn⟩]
    rfl

theorem recalled?_remember_of_ne (t : TypeId) (h : y ≠ x) :
    (p.remember t x).recalled? y = p.recalled? y := by
  rcases x with (_ | _ | _ | _ | _) | _ | _ <;> rcases y with (_ | _ | _ | _ | _) | _ | _ <;>
    first
    | rfl
    | exact Table.getElem?_insert.trans (if_neg fun heq => h (by rw [eq_of_beq heq]))
    | exact Table.getElem?_insertIfNew.trans (if_neg fun heq => h (by rw [eq_of_beq heq.1]))

/-- What a program remembers about types. -/
def memory (p : Program) : Program :=
  { types := p.types, intrinsics := p.intrinsics, valueTypes := p.valueTypes,
    declaredTypes := p.declaredTypes, annotationTypes := p.annotationTypes,
    functionTypes := p.functionTypes, positionTypes := p.positionTypes,
    expressionTypes := p.expressionTypes, pending := p.pending }

theorem recalled?_memory (x : Memo) : p.memory.recalled? x = p.recalled? x := by
  rcases x with (_ | _ | _ | _ | _) | _ | _ <;> rfl

/-- The nodes declare what they did and denote what they did. -/
structure SameIndex (p q : Program) : Prop where
  declared : q.declared = p.declared
  memberAt : q.memberAt = p.memberAt
  uses : q.uses = p.uses
  decls : ∀ s : SymbolId, s.idx < p.symbols.size → (q.symbol s).decls = (p.symbol s).decls

/-- What is watched is remembered as it was, and the types that are watched are what they
were, and so is what they are made of. -/
structure SameAnswers (w : Watch) (p q : Program) : Prop where
  recalled : ∀ x, w.memos x → ∀ t, p.recalled? x = some t → q.recalled? x = some t
  kept : ∀ t : TypeId, t.idx < w.types → (p.typeInfo t).Kept (q.typeInfo t)
  traits : ∀ s : SymbolId, s.idx < p.symbols.size → (q.symbol s).traits = (p.symbol s).traits
  shapeAt : q.shapeAt = p.shapeAt
  tables : p.tables.size ≤ q.tables.size ∧
    ∀ t : TableId, t.idx < p.tables.size → q.table t = p.table t

/-- What was remembered is remembered, what was open is open, and if all links are made, the
index and the answers are what they were. -/
structure Rested (w : Watch) (p q : Program) : Prop where
  expression : ∀ n, p.expressionTypes.contains n = true → q.expressionTypes.contains n = true
  meaning : ∀ n, p.annotationTypes.contains n = true → q.annotationTypes.contains n = true
  pending : ∀ x, q.pending.contains x = p.pending.contains x
  size : p.symbols.size ≤ q.symbols.size
  types : p.types.size ≤ q.types.size
  index : w.linked → SameIndex p q
  answers : w.linked → SameAnswers w p q

theorem SameIndex.refl (p : Program) : SameIndex p p := ⟨rfl, rfl, rfl, fun _ _ => rfl⟩

theorem SameAnswers.refl (p : Program) : SameAnswers w p p :=
  ⟨fun _ _ _ h => h, fun _ _ => .refl _, fun _ _ => rfl, rfl, le_rfl, fun _ _ => rfl⟩

namespace Rested

theorem refl (p : Program) : Rested w p p :=
  ⟨fun _ h => h, fun _ h => h, fun _ => rfl, le_rfl, le_rfl, fun _ => .refl p, fun _ => .refl p⟩

theorem trans (h₁ : Rested w p q) (h₂ : Rested w q r) : Rested w p r where
  expression n h := h₂.expression n (h₁.expression n h)
  meaning n h := h₂.meaning n (h₁.meaning n h)
  pending x := (h₂.pending x).trans (h₁.pending x)
  size := h₁.size.trans h₂.size
  types := h₁.types.trans h₂.types
  index hw :=
    have i₁ := h₁.index hw
    have i₂ := h₂.index hw
    ⟨i₂.declared.trans i₁.declared, i₂.memberAt.trans i₁.memberAt, i₂.uses.trans i₁.uses,
      fun s hs => (i₂.decls s (hs.trans_le h₁.size)).trans (i₁.decls s hs)⟩
  answers hw :=
    have a₁ := h₁.answers hw
    have a₂ := h₂.answers hw
    { recalled := fun x hx t h => a₂.recalled x hx t (a₁.recalled x hx t h)
      kept := fun t ht => (a₁.kept t ht).trans (a₂.kept t ht)
      traits := fun s hs => (a₂.traits s (hs.trans_le h₁.size)).trans (a₁.traits s hs)
      shapeAt := a₂.shapeAt.trans a₁.shapeAt
      tables := ⟨a₁.tables.1.trans a₂.tables.1, fun t ht =>
        (a₂.tables.2 t (ht.trans_le a₁.tables.1)).trans (a₁.tables.2 t ht)⟩ }

/-- What was answered stays answered. -/
theorem answered {src : Source} {n : NodeId} (h : Rested w p q) (hp : Typing.Answered src n p) :
    Typing.Answered src n q :=
  ⟨fun hn => h.expression n (hp.expression hn), fun hn => h.meaning n (hp.meaning hn)⟩

/-- What was linked stays linked. -/
theorem allLinked {src : Source} (h : Rested w p q) (hp : Typing.AllLinked src p) :
    Typing.AllLinked src q := fun n => h.answered (hp n)

theorem ready {src : Source} (h : Rested w p q) (hp : Typing.Ready src w p) :
    Typing.Ready src w q :=
  fun hw => ⟨h.allLinked (hp hw).1, (hp hw).2.trans h.types⟩

/-- Fewer types may be watched. -/
theorem fewer {k : Nat} (h : Rested (.all k) p q) : Rested (.all 0) p q :=
  { h with answers := fun hw => { h.answers hw with kept := fun _ => nofun } }

/-- What was not remembered need not stay. -/
theorem of_except (h : Rested (w.except x) p q) (hnone : p.recalled? x = none) :
    Rested w p q := by
  refine ⟨h.expression, h.meaning, h.pending, h.size, h.types, h.index, fun hw => ?_⟩
  refine { h.answers hw with recalled := fun y hy t ht => ?_ }
  refine (h.answers hw).recalled y ⟨hy, ?_⟩ t ht
  rintro rfl
  rw [hnone] at ht
  exact nomatch ht

/-- A change of what is remembered about types. -/
theorem of_facts (hfacts : q.facts = p.facts)
    (he : ∀ n, p.expressionTypes.contains n = true → q.expressionTypes.contains n = true)
    (ha : ∀ n, p.annotationTypes.contains n = true → q.annotationTypes.contains n = true)
    (hp : ∀ x, q.pending.contains x = p.pending.contains x) (hsize : p.types.size ≤ q.types.size)
    (hrecalled : w.linked → ∀ x, w.memos x → ∀ t, p.recalled? x = some t →
      q.recalled? x = some t)
    (hkept : w.linked → ∀ t : TypeId, t.idx < w.types → (p.typeInfo t).Kept (q.typeInfo t)) :
    Rested w p q := by
  have hsymbols : q.facts.symbols = p.facts.symbols := by rw [hfacts]
  have htables : q.facts.tables = p.facts.tables := by rw [hfacts]
  refine ⟨he, ha, hp, (congrArg Array.size hsymbols).ge, hsize,
    fun _ => ⟨?_, ?_, ?_, fun s _ => ?_⟩,
    fun hw => ⟨hrecalled hw, hkept hw, fun s _ => ?_, ?_, ?_, fun t _ => ?_⟩⟩
  · exact show q.facts.declared = p.facts.declared by rw [hfacts]
  · exact show q.facts.memberAt = p.facts.memberAt by rw [hfacts]
  · exact show q.facts.uses = p.facts.uses by rw [hfacts]
  · exact congrArg (fun xs => (Array.getD xs s.idx default).decls) hsymbols
  · exact congrArg (fun xs => (Array.getD xs s.idx default).traits) hsymbols
  · exact show q.facts.shapeAt = p.facts.shapeAt by rw [hfacts]
  · exact (congrArg Array.size htables).ge
  · exact congrArg (fun xs => Array.getD xs t.idx default) htables

/-- A change of types alone. -/
theorem of_types {types : Array TypeInfo} (hsize : p.types.size ≤ types.size)
    (hkept : w.linked → ∀ t : TypeId, t.idx < w.types →
      (p.typeInfo t).Kept (types.getD t.idx default)) :
    Rested w p { p with types := types } :=
  of_facts rfl (fun _ h => h) (fun _ h => h) (fun _ => rfl) hsize
    (fun _ x _ t h => by rcases x with (_ | _ | _ | _ | _) | _ | _ <;> exact h) hkept

/-- One more type is remembered. -/
theorem remember (t : TypeId) : Rested (w.except x) p (p.remember t x) := by
  have hsome : ∀ y, (p.recalled? y).isSome = true →
      ((p.remember t x).recalled? y).isSome = true := by
    intro y hy
    by_cases heq : y = x
    · rw [heq]
      exact isSome_recalled?_remember t
    · rwa [recalled?_remember_of_ne t heq]
  have hsame : (p.remember t x).facts = p.facts ∧ (p.remember t x).types = p.types ∧
      (p.remember t x).pending = p.pending := by
    rcases x with (_ | _ | _ | _ | _) | _ | _ <;> exact ⟨rfl, rfl, rfl⟩
  refine .of_facts hsame.1 (fun n hn => ?_) (fun n hn => ?_) (fun y => by rw [hsame.2.2])
    (by rw [hsame.2.1]) (fun _ y hy t' ht => (recalled?_remember_of_ne t hy.2).trans ht)
    fun _ t' _ => ?_
  · rw [Std.TreeMap.contains_eq_isSome_getElem?] at hn ⊢
    exact hsome (.answer (.expression n)) hn
  · rw [Std.TreeMap.contains_eq_isSome_getElem?] at hn ⊢
    exact hsome (.answer (.meaning n)) hn
  · rw [typeInfo, typeInfo, hsame.2.1]
    exact .refl _

/-- A change of what is remembered about nothing that is looked at. -/
theorem of_learned (hfacts : q.facts = p.facts) (hm : q.memory = p.memory) : Rested w p q := by
  have htypes : q.types = p.types := show q.memory.types = p.memory.types by rw [hm]
  refine of_facts hfacts (fun n h => ?_) (fun n h => ?_) (fun x => ?_) (by rw [htypes])
    (fun _ x _ t h => ?_) fun _ t _ => ?_
  · exact show q.memory.expressionTypes.contains n = true by rw [hm]; exact h
  · exact show q.memory.annotationTypes.contains n = true by rw [hm]; exact h
  · exact show q.memory.pending.contains x = _ by rw [hm]; rfl
  · rw [← recalled?_memory, hm, recalled?_memory, h]
  · rw [typeInfo, typeInfo, htypes]
    exact .refl _

/-- A change that leaves alone what is remembered. -/
theorem of_memory (hm : q.memory = p.memory) (hsize : p.symbols.size ≤ q.symbols.size)
    (hindex : w.linked → SameIndex p q)
    (htraits : w.linked → ∀ s : SymbolId, s.idx < p.symbols.size →
      (q.symbol s).traits = (p.symbol s).traits)
    (hshape : w.linked → q.shapeAt = p.shapeAt)
    (htables : w.linked → p.tables.size ≤ q.tables.size ∧
      ∀ t : TableId, t.idx < p.tables.size → q.table t = p.table t) : Rested w p q := by
  have hrecalled : ∀ x, q.recalled? x = p.recalled? x := fun x => by
    rw [← recalled?_memory, hm, recalled?_memory]
  have htypes : q.types = p.types := show q.memory.types = p.memory.types by rw [hm]
  refine ⟨fun n h => ?_, fun n h => ?_, fun x => ?_, hsize, by rw [htypes], hindex, fun hw =>
    ⟨fun x _ t h => (hrecalled x).trans h, fun t _ => ?_, htraits hw, hshape hw, htables hw⟩⟩
  · exact show q.memory.expressionTypes.contains n = true by rw [hm]; exact h
  · exact show q.memory.annotationTypes.contains n = true by rw [hm]; exact h
  · exact show q.memory.pending.contains x = _ by rw [hm]; rfl
  · rw [typeInfo, typeInfo, htypes]
    exact .refl _

/-- Making links is no harm as long as not all are made. -/
theorem of_unlinked (hw : ¬ w.linked) (hm : q.memory = p.memory)
    (hsize : p.symbols.size ≤ q.symbols.size) : Rested w p q :=
  of_memory hm hsize (absurd · hw) (absurd · hw) (absurd · hw) (absurd · hw)

/-- A change of symbols that leaves the declarations and traits of those there are. -/
theorem of_symbols (hm : q.memory = p.memory) (hd : q.declared = p.declared)
    (hl : q.memberAt = p.memberAt) (hu : q.uses = p.uses) (hshape : q.shapeAt = p.shapeAt)
    (htables : p.tables.size ≤ q.tables.size ∧
      ∀ t : TableId, t.idx < p.tables.size → q.table t = p.table t)
    (hsize : p.symbols.size ≤ q.symbols.size)
    (hkept : ∀ s : SymbolId, s.idx < p.symbols.size →
      (q.symbol s).decls = (p.symbol s).decls ∧ (q.symbol s).traits = (p.symbol s).traits) :
    Rested w p q :=
  of_memory hm hsize (fun _ => ⟨hd, hl, hu, fun s hs => (hkept s hs).1⟩)
    (fun _ s hs => (hkept s hs).2) (fun _ => hshape) fun _ => htables

theorem modifySymbol {s : SymbolId} {f : Symbol → Symbol}
    (hf : ∀ x, (f x).decls = x.decls ∧ (f x).traits = x.traits) :
    Rested w p (p.modifySymbol s f) := by
  refine of_symbols rfl rfl rfl rfl rfl ⟨le_rfl, fun _ _ => rfl⟩ (by simp) fun t _ => ?_
  rw [symbol_modifySymbol]
  split
  · exact hf _
  · exact ⟨rfl, rfl⟩

end Rested
end Program

namespace Query

open Program (Rested)
open Typing (Watch)

variable {src : Source} {own : List LiteralShape} {w : Watch} {α β : Type}

/-- The query leaves no question open and forgets nothing; if all links are made, it makes
none and keeps what is watched. -/
def Rests (w : Watch) (m : Query src own α) : Prop :=
  ∀ p, Typing.Ready src w p → Rested w p (m.run p).2

instance : LawfulMonad (Query src own) :=
  .mk' _ (fun _ => rfl) (fun _ _ => rfl) (fun _ _ _ => rfl)

namespace Rests

variable {m : Query src own α} {f : α → Query src own β}

theorem pure (a : α) : Rests w (Pure.pure a : Query src own α) := fun p _ => .refl p

theorem read (f : Program → α) : Rests w (Query.read f : Query src own α) := fun p _ => .refl p

theorem bind (hm : m.Rests w) (hf : ∀ a, (f a).Rests w) : (m >>= f).Rests w := by
  intro p hp
  have hfirst := hm p hp
  exact hfirst.trans (hf _ _ (hfirst.ready hp))

theorem some (hm : m.Rests w) : Rests w (do return Option.some (← m)) := bind hm fun _ => pure _

theorem lift {m : Query src [] α} (hm : m.Rests w) :
    Rests w (MonadLift.monadLift m : Query src own α) := hm

/-- Learning something that answers no question of these sorts. -/
theorem learn {f : Program → Program} {h : ∀ p, (f p).facts = p.facts}
    (hm : ∀ p, (f p).memory = p.memory) : Rests w (Query.learn f h : Query src own Unit) :=
  fun p _ => .of_learned (h p) (hm p)

theorem mapM {γ : Type} {g : γ → Query src own β} {xs : List γ} (h : ∀ x ∈ xs, (g x).Rests w) :
    Rests w (xs.mapM g) := by
  induction xs with
  | nil => exact pure _
  | cons x xs ih =>
    rw [List.mapM_cons]
    exact bind (h x List.mem_cons_self) fun _ =>
      bind (ih fun y hy => h y (List.mem_cons_of_mem _ hy)) fun _ => pure _

theorem forM {γ : Type} {g : γ → Query src own PUnit} {xs : List γ}
    (h : ∀ x ∈ xs, (g x).Rests w) : Rests w (xs.forM g) := by
  induction xs with
  | nil => exact pure _
  | cons x xs ih =>
    exact bind (h x List.mem_cons_self) fun _ => ih fun y hy => h y (List.mem_cons_of_mem _ hy)

theorem foldlM {γ : Type} {g : β → γ → Query src own β} {xs : List γ} (h : ∀ b x, (g b x).Rests w)
    (b : β) : Rests w (xs.foldlM g b) := by
  induction xs generalizing b with
  | nil => exact pure _
  | cons x xs ih =>
    rw [List.foldlM_cons]
    exact bind (h b x) ih

end Rests

/-- The second choice is of no account if the first one gives a type. -/
theorem run_or {m : Query src own (Option TypeId)} {other : Query src own TypeId} {t : TypeId}
    {p q : Program} (h : m.run p = (Option.some t, q)) : Query.run (do
      match ← m with
      | Option.some t => return t
      | none => other) p = (t, q) := by
  change Query.run (match (m.run p).1 with
    | Option.some t => Pure.pure t
    | none => other) (m.run p).2 = _
  rw [h]
  rfl

end Query

/-- There is always depth enough for one answer. -/
theorem Typing.exists_run_solve {src : Source} (q : Question) (p : Program) :
    ∃ fuel, (solve src q).run p = (answer src (answerWithin src fuel) q).run p := by
  have hdepth : depthBound p ≠ 0 := Nat.mul_ne_zero (by omega) (by omega)
  obtain ⟨fuel, hfuel⟩ := Nat.exists_eq_succ_of_ne_zero hdepth
  refine ⟨fuel, ?_⟩
  change (answerWithin src (depthBound p) q).run p = _
  rw [hfuel]
  rfl

end Moniker
