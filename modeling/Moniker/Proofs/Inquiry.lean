/-
# What questions leave alone

Working out types is by its type restricted to what `Program.Extends` lists.  Here
is what that means for the rest of the program: the scopes, the modules and what
identifiers denote stay as they are (`Extends.frame_eq`), a symbol keeps what it was
made with (`Extends.symbol_kept`), new symbols belong to no scope
(`Extends.scope_new`), and the only name nodes that come to declare something are
keys of object literals (`Extends.declared_eq`).

A computation `Inquires` if all it does to a program is to put questions to it, one
after another (`Program.Asked`).  Collecting the surface and classifying declarations
do.
-/

import Moniker.Surface.Classify
import Moniker.Proofs.Layout

namespace Moniker

/-- What a symbol keeps when types are worked out. -/
structure Symbol.Kept (x y : Symbol) : Prop where
  name : y.name = x.name
  scope : y.scope = x.scope
  owner : y.owner = x.owner
  specifier : y.specifier = x.specifier
  file : y.file = x.file
  statics : y.statics = x.statics
  members : x.members ≠ none → y.members = x.members
  hard : y.has .hardPrivate = x.has .hardPrivate
  traits : x.scope ≠ none → y.traits = x.traits
  decls : x.scope ≠ none → y.decls = x.decls

namespace Symbol.Kept

theorem refl (x : Symbol) : Kept x x :=
  ⟨rfl, rfl, rfl, rfl, rfl, rfl, fun _ => rfl, rfl, fun _ => rfl, fun _ => rfl⟩

theorem trans {x y z : Symbol} (h₁ : Kept x y) (h₂ : Kept y z) : Kept x z where
  name := h₂.name.trans h₁.name
  scope := h₂.scope.trans h₁.scope
  owner := h₂.owner.trans h₁.owner
  specifier := h₂.specifier.trans h₁.specifier
  file := h₂.file.trans h₁.file
  statics := h₂.statics.trans h₁.statics
  members h := (h₂.members (by rwa [h₁.members h])).trans (h₁.members h)
  hard := h₂.hard.trans h₁.hard
  traits h := (h₂.traits (by rwa [h₁.scope])).trans (h₁.traits h)
  decls h := (h₂.decls (by rwa [h₁.scope])).trans (h₁.decls h)

end Symbol.Kept

namespace Program

section Lookups

variable {p q : Program}

/-- The way out of a scope depends on the scopes alone. -/
theorem outward_congr (h : q.scopes = p.scopes) (c : ScopeId) : q.outward c = p.outward c := by
  have hwithin : ∀ fuel c, q.outwardWithin fuel c = p.outwardWithin fuel c := by
    intro fuel
    induction fuel with
    | zero => exact fun _ => rfl
    | succ fuel ih =>
      intro c
      unfold outwardWithin
      rw [scope, h]
      split
      · next hp => rw [scope, hp]
      · next hp => rw [scope, hp, ih]
  rw [outward, outward, hwithin, h]

theorem lookupValue?_congr (h : q.scopes = p.scopes) (c : ScopeId) (x : String) :
    q.lookupValue? c x = p.lookupValue? c x := by
  rw [lookupValue?, lookupValue?, outward_congr h]
  simp only [scope, h]

theorem lookupType?_congr (h : q.scopes = p.scopes) (c : ScopeId) (x : String) :
    q.lookupType? c x = p.lookupType? c x := by
  rw [lookupType?, lookupType?, outward_congr h]
  simp only [scope, h]

end Lookups

/-- What a program says apart from types, symbols and their members. -/
def frame (p : Program) : Program :=
  { p.facts with
    symbols := #[], tables := #[], declared := {}, memberAt := {}, uses := {}, shapeAt := {}, effects := #[] }

namespace Extends

variable {src : Source} {p q : Program}

/-- **Scopes, modules and what identifiers denote stay as they are.** -/
theorem frame_eq (h : Extends src p q) : q.frame = p.frame := by
  induction h with
  | trans _ _ ih₁ ih₂ => exact ih₂.trans ih₁
  | types h =>
    unfold frame
    rw [h]
  | _ => rfl

theorem source_eq (h : Extends src p q) : q.source = p.source :=
  show q.frame.source = p.frame.source by rw [h.frame_eq]

theorem scopes_eq (h : Extends src p q) : q.scopes = p.scopes :=
  show q.frame.scopes = p.frame.scopes by rw [h.frame_eq]

theorem modules_eq (h : Extends src p q) : q.modules = p.modules :=
  show q.frame.modules = p.frame.modules by rw [h.frame_eq]

theorem referenced_eq (h : Extends src p q) : q.referenced = p.referenced :=
  show q.frame.referenced = p.frame.referenced by rw [h.frame_eq]

theorem specifiers_eq (h : Extends src p q) : q.specifiers = p.specifiers :=
  show q.frame.specifiers = p.frame.specifiers by rw [h.frame_eq]

theorem unresolved_eq (h : Extends src p q) : q.unresolved = p.unresolved :=
  show q.frame.unresolved = p.frame.unresolved by rw [h.frame_eq]

theorem symbol_types (h : q.facts = p.facts) (s : SymbolId) : q.symbol s = p.symbol s := by
  have hsym : q.facts.symbols = p.facts.symbols := by rw [h]
  exact congrArg (fun xs => Array.getD xs s.idx default) hsym

/-- **A symbol keeps what it was made with.** -/
theorem symbol_kept (h : Extends src p q) {s : SymbolId} (hs : s.idx < p.symbols.size) :
    (p.symbol s).Kept (q.symbol s) := by
  induction h with
  | refl => exact .refl _
  | trans h₁ _ ih₁ ih₂ => exact (ih₁ hs).trans (ih₂ (hs.trans_le h₁.scopes_kept.1))
  | types h => rw [symbol_types h]; exact .refl _
  | symbol p sym _ => rw [symbol_addSymbol, if_neg hs.ne]; exact .refl _
  | members p s' t hnone =>
    rw [symbol_modifySymbol]
    split
    · next heq =>
      obtain rfl : s' = s := congrArg SymbolId.mk heq.1
      exact ⟨rfl, rfl, rfl, rfl, rfl, rfl, fun h => absurd hnone h, rfl, fun _ => rfl, fun _ => rfl⟩
    · exact .refl _
  | target p s' _ =>
    rw [symbol_modifySymbol]
    split
    · exact ⟨rfl, rfl, rfl, rfl, rfl, rfl, fun _ => rfl, rfl, fun _ => rfl, fun _ => rfl⟩
    · exact .refl _
  | join p s' n traits hscope _ hhard =>
    rw [symbol_modifySymbol]
    split
    · next heq =>
      have hid : s' = s := congrArg SymbolId.mk heq.1
      subst hid
      refine ⟨rfl, rfl, rfl, rfl, rfl, rfl, fun _ => rfl, ?_, fun h => absurd hscope h,
        fun h => absurd hscope h⟩
      rw [Symbol.has, Symbol.has, Traits.has_union, hhard, Bool.or_false]
    · exact .refl _
  | table | member | declared | shape | link | effect => exact .refl _

/-- Member tables only grow. -/
theorem entries_kept (h : Extends src p q) (t : TableId) :
    ∀ e ∈ (p.table t).entries, e ∈ (q.table t).entries := by
  induction h with
  | trans _ _ ih₁ ih₂ => exact fun e he => ih₂ e (ih₁ e he)
  | @types p q h =>
    have htables : q.facts.tables = p.facts.tables := by rw [h]
    intro e he
    rw [Program.table, show q.tables = p.tables from htables]
    exact he
  | table p tbl =>
    intro e he
    rw [table_addTable]
    split
    · next heq =>
      rw [Program.table, getD_of_size_le heq.ge] at he
      exact absurd he List.not_mem_nil
    · exact he
  | member p t' name s _ _ =>
    intro e he
    rw [table_addToTable]
    split
    · exact List.mem_append_left _ he
    · exact he
  | refl | symbol | members | target | join | declared | shape | link | effect => exact fun _ he => he

/-- Members stay members, on both sides. -/
theorem members_kept (h : Extends src p q) {s m : SymbolId} (hs : s.idx < p.symbols.size)
    (hm : m ∈ p.membersOf s ++ p.staticsOf s) : m ∈ q.membersOf s ++ q.staticsOf s := by
  have hkept := h.symbol_kept hs
  have hgrown : ∀ t, m ∈ (p.table t).symbols → m ∈ (q.table t).symbols := by
    intro t ht
    obtain ⟨e, he, rfl⟩ := List.mem_map.mp ht
    exact List.mem_map.mpr ⟨e, h.entries_kept t e he, rfl⟩
  rcases List.mem_append.mp hm with hm | hm
  · refine List.mem_append_left _ ?_
    unfold membersOf at hm ⊢
    cases ht : (p.symbol s).members with
    | none =>
      rw [ht] at hm
      exact nomatch hm
    | some t =>
      rw [ht] at hm
      rw [hkept.members (by rw [ht]; exact Option.some_ne_none t), ht]
      exact hgrown t hm
  · refine List.mem_append_right _ ?_
    unfold staticsOf at hm ⊢
    rw [hkept.statics]
    cases ht : (p.symbol s).statics with
    | none =>
      rw [ht] at hm
      exact nomatch hm
    | some t =>
      rw [ht] at hm
      exact hgrown t hm

/-- New symbols belong to no scope. -/
theorem scope_new (h : Extends src p q) {s : SymbolId} (hs : p.symbols.size ≤ s.idx) :
    (q.symbol s).scope = none := by
  have hout : ∀ p : Program, p.symbols.size ≤ s.idx → (p.symbol s).scope = none := by
    intro p hs
    rw [Program.symbol, getD_of_size_le hs]
    rfl
  induction h with
  | refl p => exact hout p hs
  | @trans p q r h₁ h₂ ih₁ ih₂ =>
    rcases lt_or_ge s.idx q.symbols.size with hlt | hge
    · rw [(h₂.symbol_kept hlt).scope]
      exact ih₁ hs
    · exact ih₂ hge
  | @types p q h => rw [symbol_types h]; exact hout p hs
  | symbol p sym hsym =>
    rw [symbol_addSymbol]
    split
    · exact hsym
    · exact hout p hs
  | members p s' | target p s' | join p s' =>
    exact hout _ (by simpa using hs)
  | table p | member p | declared p | shape p | link p | effect p => exact hout p hs

/-- **Only keys of object literals come to declare something,** and what they
declare belongs to no scope. -/
theorem declared_cases (h : Extends src p q) (n : NodeId) :
    q.declared[n]? = p.declared[n]? ∨
      ∃ s, q.declared[n]? = some s ∧ src.IsLiteralKey n ∧ s.idx < q.symbols.size ∧
        (q.symbol s).scope = none := by
  induction h with
  | refl => exact .inl rfl
  | @trans p q r h₁ h₂ ih₁ ih₂ =>
    rcases ih₂ with heq | hnew
    · rcases ih₁ with heq' | ⟨s, hs, hk, hlt, hscope⟩
      · exact .inl (heq.trans heq')
      · refine .inr ⟨s, heq.trans hs, hk, hlt.trans_le h₂.scopes_kept.1, ?_⟩
        rw [(h₂.symbol_kept hlt).scope]
        exact hscope
    · exact .inr hnew
  | @types p q h =>
    have hd : q.facts.declared = p.facts.declared := by rw [h]
    exact .inl (congrArg (fun m : Table NodeId SymbolId => m[n]?) hd)
  | declared p m s hlt hscope _ hk =>
    have hins : (p.markDeclared m s).declared[n]? = if m == n then some s else p.declared[n]? :=
      Table.getElem?_insert
    rw [hins]
    split
    · next heq =>
      have hmn : m = n := by simpa using heq
      subst hmn
      exact .inr ⟨s, rfl, hk, hlt, hscope⟩
    · exact .inl rfl
  | symbol | table | members | target | member | join | shape | link | effect => exact .inl rfl

theorem declared_eq (h : Extends src p q) {n : NodeId} (hn : ¬ src.IsLiteralKey n) :
    q.declared[n]? = p.declared[n]? := by
  rcases h.declared_cases n with heq | ⟨_, _, hk, _⟩
  · exact heq
  · exact absurd hk hn

end Extends

/-- The program after one question. Properties, exports and the places to rename are read
off a program, so to ask for them leaves it as it is. -/
inductive Asks : Program → Program → Prop where
  | typeOfSymbol (p : Program) (s : SymbolId) : Asks p ((Build.typeOfSymbol s).after p)
  | declaredTypeOf (p : Program) (s : SymbolId) : Asks p ((Build.declaredTypeOf s).after p)
  | typeOfNode (p : Program) (n : NodeId) : Asks p ((Build.typeOfNode n).after p)
  | resolveAlias (p : Program) (s : SymbolId) : Asks p ((Build.resolveAlias s).after p)

/-- The program after any number of questions. -/
def Asked (p q : Program) : Prop := Relation.ReflTransGen Asks p q

/-- **Questions only work out types.** -/
theorem Asked.extends {p q : Program} (h : Asked p q) : Extends p.source p q := by
  have hask {α : Type} {p : Program} {question : (src : Source) → Query src [] α} :
      Extends p.source p ((Build.ask question).after p) :=
    (question p.source).keeps p fun _ h => absurd h List.not_mem_nil
  induction h with
  | refl => exact .refl p
  | tail _ hstep ih =>
    refine ih.trans ?_
    rw [← ih.source_eq]
    cases hstep with
    | typeOfSymbol | declaredTypeOf | typeOfNode | resolveAlias => exact hask

end Program

namespace Build

/-- The computation only puts questions to the program. -/
def Inquires (m : Build α) : Prop := ∀ p, Program.Asked p (m.after p)

namespace Inquires

variable {m : Build α} {f : α → Build β}

theorem pure (a : α) : Inquires (Pure.pure a : Build α) := fun _ => .refl

theorem read (f : Program → α) : Inquires (Build.read f) := fun _ => .refl

theorem get : Inquires (MonadState.get : Build Program) := fun _ => .refl

theorem map {g : α → β} (hm : Inquires m) : Inquires (g <$> m) := fun p => hm p

theorem bind (hm : Inquires m) (hf : ∀ a, Inquires (f a)) : Inquires (m >>= f) :=
  fun p => (hm p).trans (hf (m.value p) (m.after p))

theorem mapM {g : γ → Build β} {xs : List γ} (h : ∀ x ∈ xs, Inquires (g x)) :
    Inquires (xs.mapM g) := by
  induction xs with
  | nil => exact pure _
  | cons x xs ih =>
    rw [List.mapM_cons]
    exact bind (h x List.mem_cons_self) fun _ =>
      bind (ih fun y hy => h y (List.mem_cons_of_mem _ hy)) fun _ => pure _

theorem foldlM {g : β → γ → Build β} {xs : List γ} (h : ∀ b x, Inquires (g b x)) (b : β) :
    Inquires (xs.foldlM g b) := by
  induction xs generalizing b with
  | nil => exact pure _
  | cons x xs ih =>
    rw [List.foldlM_cons]
    exact bind (h b x) ih

theorem typeOfSymbol (s : SymbolId) : Inquires (Build.typeOfSymbol s) :=
  fun p => .single (.typeOfSymbol p s)

theorem declaredTypeOf (s : SymbolId) : Inquires (Build.declaredTypeOf s) :=
  fun p => .single (.declaredTypeOf p s)

theorem typeOfNode (n : NodeId) : Inquires (Build.typeOfNode n) :=
  fun p => .single (.typeOfNode p n)

theorem resolveAlias (s : SymbolId) : Inquires (Build.resolveAlias s) :=
  fun p => .single (.resolveAlias p s)

end Inquires
end Build

open Build (Inquires)

namespace Program

theorem fromSymbol_inquires (s : SymbolId) : Inquires (checker.fromSymbol s) := by
  have hvalue (s : SymbolId) : Inquires (checker.typeOfSymbol s) := .map (.typeOfSymbol s)
  have hdeclared (s : SymbolId) : Inquires (checker.declaredTypeOf s) := .declaredTypeOf s
  have htarget (s : SymbolId) : Inquires (checker.resolveAlias s) := .resolveAlias s
  refine .bind .get fun p => ?_
  dsimp only
  split
  · refine .bind (htarget s) fun target? => ?_
    split
    · exact .pure _
    · split
      · exact .pure _
      · exact .bind (hvalue _) fun _ => .bind (hdeclared _) fun _ => .bind .get fun _ => .pure _
  · refine .bind (hvalue s) fun value? => ?_
    split
    · exact .bind (hdeclared s) fun _ => .bind .get fun _ => .pure _
    · exact .bind (.pure _) fun _ => .bind .get fun _ => .pure _

theorem fromNode_inquires (n : NodeId) : Inquires (checker.fromNode n) := by
  have htype : Inquires (checker.typeOfNode n) := .map (.typeOfNode n)
  exact .bind .get fun _ => .bind htype fun _ => .bind .get fun _ => .pure _

theorem next_inquires (privateInternal : Bool) (i : Item) :
    Inquires (checker.next privateInternal i) := by
  cases i with
  | symbol s => exact fromSymbol_inquires s
  | type t => exact .bind .get fun _ => .pure _
  | node n => exact fromNode_inquires n

/-- An exploration that ends has only put questions. -/
theorem explore_asked {next : Item → Build (List Item)} (h : ∀ i, Inquires (next i))
    (work : List Item) (r : Surface) (p : Program) (out : Surface × Program)
    (hout : r.explore next work p = some out) : Asked p out.2 := by
  refine Surface.explore.partial_correctness next (fun _ _ p out => Asked p out.2) ?_
    work r p out hout
  intro explore ih work r p out hout
  split at hout
  · obtain rfl := Option.some.inj hout
    exact .refl
  · next item rest _ => exact (h item p).trans (ih _ _ _ _ hout)

theorem collect?_asked (files : List FileId) (opts : SurfaceOptions) (p : Program)
    (out : Surface × Program) (hout : checker.collect? files opts p = some out) :
    Asked p out.2 := by
  have hphases (phases : List (Program → List Item)) (r : Surface) (p : Program)
      (hout : phases.foldlM (checker.extend opts) r p = some out) : Asked p out.2 := by
    induction phases generalizing r p with
    | nil =>
      obtain rfl := Option.some.inj hout
      exact .refl
    | cons phase phases ih =>
      rw [List.foldlM_cons] at hout
      obtain ⟨mid, hmid, hrest⟩ := Option.bind_eq_some_iff.mp hout
      exact (explore_asked (next_inquires _) _ _ _ _ hmid).trans (ih _ _ hrest)
  exact hphases _ _ _ hout

end Program

theorem collectSurface_inquires (files : List FileId) (opts : SurfaceOptions) :
    Inquires (collectSurface files opts) := by
  intro p
  change Program.Asked p ((Program.checker.collect? files opts p).getD ({}, p)).2
  cases h : Program.checker.collect? files opts p with
  | none => exact .refl
  | some out => exact Program.collect?_asked files opts p out h

namespace Program

variable (r : Surface)

theorem isRelated_inquires (s : SymbolId) : Inquires (classifier.isRelated r s) := by
  have htype : Inquires (classifier.typeOfSymbol s) := .map (.typeOfSymbol s)
  unfold Classifier.isRelated
  split
  · exact .pure _
  · exact .bind htype fun _ => .bind .get fun _ => .pure _

theorem overrides_inquires (s owner : SymbolId) : Inquires (classifier.overrides s owner) := by
  have hvalue : Inquires (classifier.typeOfSymbol owner) := .map (.typeOfSymbol owner)
  have hdeclared : Inquires (classifier.declaredTypeOf owner) := .declaredTypeOf owner
  refine .bind .get fun p => ?_
  dsimp only
  split
  · exact .bind hvalue fun _ => .bind .get fun _ => .pure _
  · exact .bind hdeclared fun _ => .bind .get fun _ => .pure _

theorem anyOnSurface_inquires (nodes : List NodeId) :
    Inquires (classifier.anyOnSurface r nodes) := by
  induction nodes with
  | nil => exact .pure _
  | cons n rest ih =>
    have htype : Inquires (classifier.typeOfNode n) := .map (.typeOfNode n)
    refine .bind htype fun _ => .bind .get fun _ => ?_
    split
    · exact .pure _
    · exact ih

theorem annotatedPublic_inquires (decl : NodeId) :
    Inquires (classifier.annotatedPublic r decl) :=
  .bind .get fun _ => anyOnSurface_inquires r _

theorem classify_inquires (reserved : List String) (rec : ScopedSymbol) :
    Inquires (classifier.classify r reserved rec) := by
  refine .bind .get fun p => ?_
  split
  · exact .pure _
  · refine .bind (isRelated_inquires r _) fun _ => ?_
    split
    · exact .pure _
    · split
      · exact .pure _
      · refine .bind (overrides_inquires _ _) fun _ => ?_
        split
        · exact .pure _
        · refine .bind (annotatedPublic_inquires r _) fun _ => ?_
          split <;> exact .pure _

theorem entry_inquires (reserved : List String) (rec : ScopedSymbol) :
    Inquires (classifier.entry r reserved rec) :=
  .bind (classify_inquires r reserved rec) fun _ => .pure _

theorem analyzeFile_inquires (reserved : List String) (f : FileId) :
    Inquires (classifier.analyzeFile r reserved f) :=
  .bind .get fun _ => .bind (.mapM fun rec _ => entry_inquires r reserved rec) fun _ => .pure _

end Program

theorem analyze_inquires (files : List FileId) (opts : SurfaceOptions) :
    Inquires (analyze files opts) := by
  refine .bind (collectSurface_inquires files opts) fun surface => ?_
  exact .bind (.mapM fun f _ => Program.analyzeFile_inquires surface _ f) fun _ => .pure _

end Moniker
