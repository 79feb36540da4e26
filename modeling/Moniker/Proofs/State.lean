/-
# What a change of a program leaves behind

The elementary changes of a program each touch one thing.  The lemmas here say what
can be read off a program after a change: a new scope is found under its own number
and leaves the others alone, a changed module is changed and the others are not,
and so on.

A step of a visit has a list of collected symbols besides the program.
`Bind.after` and `Bind.value` name the halves of its run, like `Build.after` and
`Build.value` do for a step without the list.
-/

import Moniker.Binding.Visit
import Mathlib.Order.Nat

namespace Moniker
namespace Program

variable {p : Program}

section Scopes

variable {sc : Scope} {s : ScopeId} {f : Scope → Scope}

theorem scope_addScope (c : ScopeId) :
    (p.addScope sc).scope c = if c.idx = p.scopes.size then sc else p.scope c := getD_push

@[simp] theorem scopes_size_addScope : (p.addScope sc).scopes.size = p.scopes.size + 1 :=
  Array.size_push ..

theorem scope_modifyScope (c : ScopeId) :
    (p.modifyScope s f).scope c =
      if s.idx = c.idx ∧ c.idx < p.scopes.size then f (p.scope c) else p.scope c :=
  getD_modify f

/-- Only the scope that is changed is another. -/
theorem scope_modifyScope_cases (s : ScopeId) (f : Scope → Scope) (c : ScopeId) :
    (p.modifyScope s f).scope c = p.scope c ∨
      (c = s ∧ (p.modifyScope s f).scope c = f (p.scope s)) := by
  rw [scope_modifyScope]
  split
  · next heq =>
    have hid : c = s := congrArg ScopeId.mk heq.1.symm
    exact .inr ⟨hid, by rw [hid]⟩
  · exact .inl rfl

@[simp] theorem scopes_size_modifyScope : (p.modifyScope s f).scopes.size = p.scopes.size :=
  Array.size_modify ..

/-- A scope that is not there declares nothing. -/
theorem scope_of_size_le (h : p.scopes.size ≤ s.idx) : p.scope s = default := getD_of_size_le h

/-- A scope that is opened lists and knows nothing, and the others what they did. -/
theorem names_openScope (sc : Scope) (hnew : sc.symbols = [] ∧ sc.values = {} ∧ sc.types = {})
    (outer : ScopeId) (c : ScopeId) :
    let sc' := ((p.addScope sc).modifyScope outer fun o =>
      { o with children := o.children ++ [⟨p.scopes.size⟩] }).scope c
    sc'.symbols = (p.scope c).symbols ∧ sc'.values = (p.scope c).values ∧
      sc'.types = (p.scope c).types := by
  dsimp only
  rw [scope_modifyScope, scope_addScope]
  by_cases hc : c.idx = p.scopes.size
  · rw [if_pos hc, scope_of_size_le hc.ge]
    split <;> exact hnew
  · rw [if_neg hc]
    split <;> exact ⟨rfl, rfl, rfl⟩

end Scopes

section Modules

variable {m : ModuleId} {f : Module → Module}

theorem moduleInfo_modifyModule (k : ModuleId) :
    (p.modifyModule m f).moduleInfo k =
      if m.idx = k.idx ∧ k.idx < p.modules.size then f (p.moduleInfo k) else p.moduleInfo k :=
  getD_modify f

@[simp] theorem modules_size_modifyModule : (p.modifyModule m f).modules.size = p.modules.size :=
  Array.size_modify ..

end Modules

theorem symbol_of_size_le {s : SymbolId} (h : p.symbols.size ≤ s.idx) : p.symbol s = default :=
  getD_of_size_le h

theorem table_of_size_le {t : TableId} (h : p.tables.size ≤ t.idx) : p.table t = default :=
  getD_of_size_le h

theorem declared_markDeclared {n k : NodeId} {s : SymbolId} :
    (p.markDeclared n s).declared[k]? = if n = k then some s else p.declared[k]? := by
  have h : (p.markDeclared n s).declared[k]? = if n == k then some s else p.declared[k]? :=
    Table.getElem?_insert
  simpa using h

end Program

/-! ### Steps one after another -/

section Steps

variable {σ : Type} {step : σ → α → σ} {I J : σ → Prop} {xs : List α} {x : α} {s : σ}

/-- What every step keeps holds after all of them. -/
theorem foldl_keeps (h : ∀ x ∈ xs, ∀ s, I s → I (step s x)) (hs : I s) : I (xs.foldl step s) := by
  induction xs generalizing s with
  | nil => exact hs
  | cons x xs ih =>
    exact ih (fun y hy => h y (List.mem_cons_of_mem _ hy)) (h x List.mem_cons_self s hs)

/-- **What one step brings about and the others keep holds after all of them.** -/
theorem foldl_of_mem (hx : x ∈ xs) (hJ : ∀ y ∈ xs, ∀ s, J s → J (step s y))
    (start : ∀ s, J s → I (step s x)) (keep : ∀ y ∈ xs, y ≠ x → ∀ s, J s → I s → I (step s y))
    (hs : J s) : I (xs.foldl step s) := by
  induction xs generalizing s with
  | nil => exact nomatch hx
  | cons y ys ih =>
    have hJ' : ∀ z ∈ ys, ∀ s, J s → J (step s z) := fun z hz => hJ z (List.mem_cons_of_mem _ hz)
    have keep' : ∀ z ∈ ys, z ≠ x → ∀ s, J s → I s → I (step s z) := fun z hz =>
      keep z (List.mem_cons_of_mem _ hz)
    have hy := hJ y List.mem_cons_self s hs
    rcases List.mem_cons.mp hx with rfl | hx
    · -- The step may be taken again among the others.
      refine (foldl_keeps (I := fun s => J s ∧ I s) (fun z hz s h => ?_) ⟨hy, start s hs⟩).2
      rcases eq_or_ne z x with rfl | hne
      · exact ⟨hJ' z hz s h.1, start s h.1⟩
      · exact ⟨hJ' z hz s h.1, keep' z hz hne s h.1 h.2⟩
    · exact ih hx hJ' keep' hy

end Steps

namespace Build

theorem after_readIf {c : Program → Bool} {m m' : Build α} {p : Program} :
    (Build.read c >>= fun b => if b = true then m else m').after p =
      if c p = true then m.after p else m'.after p := by
  change (if c p = true then m else m').after p = _
  split <;> rfl

theorem after_forM_eq {g : α → Build Unit} {xs : List α} {p : Program} :
    (xs.forM g).after p = xs.foldl (fun q x => (g x).after q) p := by
  induction xs generalizing p with
  | nil => rfl
  | cons x xs ih => exact ih

/-- What every step keeps holds after all of them. -/
theorem after_forM {I : Program → Prop} {g : α → Build Unit} {xs : List α}
    (h : ∀ x ∈ xs, ∀ p, I p → I ((g x).after p)) {p : Program} (hp : I p) :
    I ((xs.forM g).after p) := by
  rw [after_forM_eq]
  exact foldl_keeps h hp

theorem after_forM_append {g : α → Build Unit} {xs ys : List α} {p : Program} :
    ((xs ++ ys).forM g).after p = (ys.forM g).after ((xs.forM g).after p) := by
  rw [after_forM_eq, List.foldl_append, after_forM_eq, after_forM_eq]

end Build

namespace Traits

/-- Every trait of `a` is one of `b`. -/
def Le (a b : Traits) : Prop := ∀ i, a.bits.testBit i = true → b.bits.testBit i = true

variable {a b c : Traits} {t : Trait}

theorem Le.refl (a : Traits) : Le a a := fun _ h => h

theorem Le.trans (h₁ : Le a b) (h₂ : Le b c) : Le a c := fun i h => h₂ i (h₁ i h)

theorem le_union_left : Le a (a.union b) := fun i h => by simp [union, h]

theorem le_union_right : Le b (a.union b) := fun i h => by simp [union, h]

theorem le_insert : Le a (a.insert t) := fun i h => by simp [insert, h]

theorem le_insertIf {cond : Bool} : Le a (a.insertIf cond t) := by
  cases cond
  · exact .refl a
  · exact le_insert

theorem Le.has (h : Le a b) (ht : a.has t = true) : b.has t = true := h _ ht

theorem has_insert : (a.insert t).has t = true := by
  simp [has, insert, Nat.testBit_shiftLeft]

theorem meets_iff :
    a.meets b = true ↔ ∃ i, a.bits.testBit i = true ∧ b.bits.testBit i = true := by
  rw [meets, bne_iff_ne, Ne, ← not_iff_not, not_not, not_exists]
  constructor
  · intro h i hi
    have hbit : (a.bits &&& b.bits).testBit i = true := by rw [Nat.testBit_and, hi.1, hi.2]; rfl
    rw [h, Nat.zero_testBit] at hbit
    exact Bool.false_ne_true hbit
  · intro h
    refine Nat.eq_of_testBit_eq fun i => ?_
    rw [Nat.zero_testBit, Nat.testBit_and, ← Bool.not_eq_true, Bool.and_eq_true]
    exact h i

theorem has_eq_false (h : a.meets b = false) (ht : b.has t = true) :
    a.has t = false := by
  rw [← Bool.not_eq_true] at h ⊢
  exact fun ha => h (meets_iff.mpr ⟨t.bit, ha, ht⟩)

theorem meets_of_has (ha : a.has t = true) (hb : b.has t = true) : a.meets b = true :=
  meets_iff.mpr ⟨t.bit, ha, hb⟩

theorem meets_union_eq_false (ha : a.meets c = false) (hb : b.meets c = false) :
    (a.union b).meets c = false := by
  rw [← Bool.not_eq_true] at ha hb ⊢
  intro h
  obtain ⟨i, hi, hd⟩ := meets_iff.mp h
  rw [union, Nat.testBit_or, Bool.or_eq_true] at hi
  rcases hi with hi | hi
  · exact ha (meets_iff.mpr ⟨i, hi, hd⟩)
  · exact hb (meets_iff.mpr ⟨i, hi, hd⟩)

theorem meets_insertIf_eq_false {cond : Bool} (h : a.meets b = false) (ht : b.has t = false) :
    (a.insertIf cond t).meets b = false := by
  cases cond with
  | false => exact h
  | true =>
    rw [← Bool.not_eq_true] at h ⊢
    intro hmeets
    obtain ⟨i, hi, hb⟩ := meets_iff.mp hmeets
    simp only [insertIf, insert, if_true, Nat.testBit_or, Nat.one_shiftLeft, Nat.testBit_two_pow,
      Bool.or_eq_true, decide_eq_true_iff] at hi
    rcases hi with hi | rfl
    · exact h (meets_iff.mpr ⟨i, hi, hb⟩)
    · exact Bool.false_ne_true (ht.symm.trans hb)

theorem Le.meets {ts : Traits} (h : Le a b) (hm : a.meets ts = true) : b.meets ts = true := by
  obtain ⟨i, hi, hts⟩ := meets_iff.mp hm
  exact meets_iff.mpr ⟨i, h i hi, hts⟩

/-- Traits that a set has nothing of do not matter to it. -/
theorem meets_union_of_not (h : b.meets c = false) : (a.union b).meets c = a.meets c := by
  cases ha : a.meets c with
  | true => exact le_union_left.meets ha
  | false => exact meets_union_eq_false ha h

end Traits

namespace Binding

/-- What a visit works on: the symbols collected so far and the program. -/
abbrev State := List SymbolId × Program

namespace Bind

/-- The state after a run. -/
def after (m : Bind α) (st : State) : State :=
  let r := (m.run st.1).run st.2
  (r.1.2, r.2)

/-- The value of a run. -/
def value (m : Bind α) (st : State) : α := ((m.run st.1).run st.2).1.1

variable {st : State}

@[simp] theorem after_pure (a : α) : after (pure a) st = st := rfl

@[simp] theorem value_pure (a : α) : value (pure a) st = a := rfl

@[simp] theorem after_bind (m : Bind α) (f : α → Bind β) :
    after (m >>= f) st = after (f (value m st)) (after m st) := rfl

@[simp] theorem value_bind (m : Bind α) (f : α → Bind β) :
    value (m >>= f) st = value (f (value m st)) (after m st) := rfl

@[simp] theorem after_lift (m : Build α) : after (liftM m) st = (st.1, m.after st.2) := rfl

@[simp] theorem value_lift (m : Build α) : value (liftM m) st = m.value st.2 := rfl

theorem after_forM_eq {g : α → Bind Unit} {xs : List α} :
    after (xs.forM g) st = xs.foldl (fun st x => after (g x) st) st := by
  induction xs generalizing st with
  | nil => rfl
  | cons x xs ih => exact @ih (after (g x) st)

theorem after_mapM_eq {g : α → Bind β} {xs : List α} :
    after (xs.mapM g) st = xs.foldl (fun st x => after (g x) st) st := by
  induction xs generalizing st with
  | nil => rfl
  | cons x xs ih =>
    rw [List.mapM_cons, after_bind, after_bind, after_pure]
    exact ih

theorem after_foldlM_eq {g : β → α → Bind β} {xs : List α} {b : β} :
    after (xs.foldlM g b) st =
      (xs.foldl (fun r x => (value (g r.1 x) r.2, after (g r.1 x) r.2)) (b, st)).2 := by
  induction xs generalizing b st with
  | nil => rfl
  | cons x xs ih => exact @ih (after (g b x) st) (value (g b x) st)

/-- What every step keeps holds after all of them. -/
theorem after_forM {I : State → Prop} {g : α → Bind Unit} {xs : List α}
    (h : ∀ x ∈ xs, ∀ st, I st → I (after (g x) st)) (hst : I st) : I (after (xs.forM g) st) := by
  rw [after_forM_eq]
  exact foldl_keeps h hst

end Bind
end Binding
end Moniker
