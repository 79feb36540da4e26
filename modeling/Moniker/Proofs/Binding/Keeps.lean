/-
# Following a visit

A step of a visit `Keeps` to its subtree and file if from every program that is
well formed (`Known`) it does a `Run`.  Such steps are put together by the rules
here, so a visit is followed by its text and not by its states.

What is known of the program when a step starts, such as that a scope is there and
belongs to the file, is an assumption `P`.  Assumptions that programs keep as they
grow are `Stable`, so they still hold at the next step.
-/

import Moniker.Proofs.Binding.WellScoped

namespace Moniker
namespace Binding

open Program (Grows)

variable {src : Source} {site : Site} {r n : NodeId} {s : ScopeId} {p q : Program}
  {P Q : Program → Prop} {α β : Type}

/-- `b` is `a` or a scope around it. -/
def Around (p : Program) (a b : ScopeId) : Prop :=
  Relation.ReflTransGen (fun x y => (p.scope x).parent = some y) a b

/-- The scope and those around it are there and belong to the file, unless global or
visited for types only. -/
def At (src : Source) (site : Site) (s : ScopeId) (p : Program) : Prop :=
  ∀ t, Around p s t → t.idx < p.scopes.size ∧
    (t = Program.globalScope ∨ site.ambient = true ∨
      ∃ n, (p.scope t).node = some n ∧ src.fileOf n = site.file)

/-- The scope is there and of this kind. -/
def OfKind (s : ScopeId) (kind : ScopeKind) (p : Program) : Prop :=
  s.idx < p.scopes.size ∧ (p.scope s).kind = kind

/-- An assumption that a program keeps as it grows. -/
class Stable (P : Program → Prop) : Prop where
  grows : ∀ {p q : Program}, Grows p q → P p → P q

theorem Around.of_grows (h : Grows p q) (hs : At src site s p) {t : ScopeId} (ht : Around q s t) :
    Around p s t := by
  induction ht with
  | refl => exact .refl
  | tail _ hp ih =>
    rw [(h.scope _ (hs _ ih).1).parent] at hp
    exact ih.tail hp

instance : Stable (At src site s) where
  grows h hs t ht := by
    have ht := Around.of_grows h hs ht
    obtain ⟨hlt, hfile⟩ := hs t ht
    refine ⟨hlt.trans_le h.scopes_le, ?_⟩
    rwa [(h.scope t hlt).node]

instance : Stable (OfKind s kind) where
  grows h hs := ⟨hs.1.trans_le h.scopes_le, (h.scope s hs.1).kind.trans hs.2⟩

instance {sym : SymbolId} : Stable (Inner sym) where
  grows := Inner.grows

/-- The symbols are there and declared in the scope. -/
def In (s : ScopeId) (syms : List SymbolId) (p : Program) : Prop :=
  ∀ sym ∈ syms, sym.idx < p.symbols.size ∧ (p.symbol sym).scope = some s

instance {syms : List SymbolId} : Stable (In s syms) where
  grows h hs sym hsym := by
    obtain ⟨hlt, hscope⟩ := hs sym hsym
    exact ⟨hlt.trans_le h.symbols_le, (h.symbol sym hlt).scope.trans hscope⟩

/-- The module is there and has this scope. -/
structure Opened (m : ModuleId) (s : ScopeId) (p : Program) : Prop where
  module_lt : m.idx < p.modules.size
  scope : (p.moduleInfo m).scope = s
  scope_lt : s.idx < p.scopes.size

instance {m : ModuleId} : Stable (Opened m s) where
  grows h hm := {
    module_lt := hm.module_lt.trans_le h.modules_le
    scope := (h.module m hm.module_lt).scope.trans hm.scope
    scope_lt := hm.scope_lt.trans_le h.scopes_le }

instance {R : α → Program → Prop} [∀ a, Stable (R a)] : Stable fun p => ∃ a, R a p where
  grows h := fun ⟨a, ha⟩ => ⟨a, Stable.grows h ha⟩

instance [Stable P] [Stable Q] : Stable fun p => P p ∧ Q p where
  grows h hp := ⟨Stable.grows h hp.1, Stable.grows h hp.2⟩

/-- What a visit finds: well-formed scopes, the global scope, and the module of the
site with its scope. -/
structure Known (src : Source) (site : Site) (r : NodeId) (p : Program) : Prop where
  file : src.fileOf r = site.file
  wellScoped : WellScoped p
  global : OfKind Program.globalScope .global p
  global_parent : (p.scope Program.globalScope).parent = none
  module_lt : site.module.idx < p.modules.size
  module : At src site (p.moduleInfo site.module).scope p
  ambient : ∀ {name : String} {m : ModuleId}, p.ambientByName[name]? = some m →
    m.idx < p.modules.size ∧ (p.moduleInfo m).scope.idx < p.scopes.size

theorem Change.ambientByName {file : FileId} (h : Change src file r p q) {name : String}
    {m : ModuleId} (hm : q.ambientByName[name]? = some m) :
    p.ambientByName[name]? = some m ∨
      (m.idx < q.modules.size ∧ (q.moduleInfo m).scope.idx < q.scopes.size) := by
  cases h with
  | ambient a _ hscope =>
    have hins : (p.addAmbient a).ambientByName[name]? =
        if a.name == name then some ⟨p.modules.size⟩ else p.ambientByName[name]? :=
      Table.getElem?_insert
    rw [hins] at hm
    split at hm
    · rw [← Option.some.inj hm]
      refine .inr ⟨by simp [Program.addAmbient], ?_⟩
      have hnew : (p.addAmbient a).moduleInfo ⟨p.modules.size⟩ = a := by
        rw [Program.moduleInfo, Program.addAmbient, getD_push, if_pos rfl]
      rw [hnew]
      exact hscope
    · exact .inl hm
  | _ => exact .inl hm

theorem Run.ambientByName {file : FileId} {c : Option ScopeId} {st st' : State}
    (h : Run src file c r st st')
    (hp : ∀ {name : String} {m : ModuleId}, st.2.ambientByName[name]? = some m →
      m.idx < st.2.modules.size ∧ (st.2.moduleInfo m).scope.idx < st.2.scopes.size)
    {name : String} {m : ModuleId} (hm : st'.2.ambientByName[name]? = some m) :
    m.idx < st'.2.modules.size ∧ (st'.2.moduleInfo m).scope.idx < st'.2.scopes.size := by
  induction h generalizing name m with
  | refl => exact hp hm
  | trans _ _ ih₁ ih₂ => exact ih₂ (fun h => ih₁ hp h) hm
  | within _ _ ih => exact ih hp hm
  | change h =>
    rcases h.ambientByName hm with hold | hnew
    · obtain ⟨hlt, hscope⟩ := hp hold
      refine ⟨hlt.trans_le h.grows.modules_le, ?_⟩
      rw [(h.grows.module m hlt).scope]
      exact hscope.trans_le h.grows.scopes_le
    · exact hnew
  | introduce sym target n _ _ _ _ _ =>
    obtain ⟨hlt, hscope⟩ := hp hm
    exact ⟨hlt, hscope.trans_le (grows_introduce sym target n).scopes_le⟩
  | nested s _ _ ih => exact ih hp hm

theorem Known.run {file : FileId} {c : Option ScopeId} {r' : NodeId} {l l' : List SymbolId}
    (hk : Known src site r p) (h : Run src file c r' (l, p) (l', q)) : Known src site r q where
  file := hk.file
  wellScoped := h.wellScoped hk.wellScoped
  global := Stable.grows h.grows hk.global
  global_parent := (h.grows.scope _ hk.global.1).parent.trans hk.global_parent
  module_lt := hk.module_lt.trans_le h.grows.modules_le
  module := by
    rw [(h.grows.module _ hk.module_lt).scope]
    exact Stable.grows h.grows hk.module
  ambient := h.ambientByName hk.ambient

theorem At.of_ambient (hw : WellScoped p) (ha : site.ambient = true)
    (hs : s.idx < p.scopes.size) : At src site s p := by
  intro t ht
  refine ⟨?_, .inr (.inl ha)⟩
  induction ht with
  | refl => exact hs
  | tail _ hp ih => exact (hw.parent_lt hp).1.trans ih

theorem At.global (hk : Known src site r p) : At src site Program.globalScope p := by
  intro t ht
  rcases Relation.ReflTransGen.cases_head ht with rfl | ⟨u, hu, _⟩
  · exact ⟨hk.global.1, .inl rfl⟩
  · exact nomatch hu.symm.trans hk.global_parent

theorem At.ambient (h : At src site s p) : At src { site with ambient := true } s p :=
  fun t ht => ⟨(h t ht).1, .inr (.inl rfl)⟩

/-! ### Rules -/

/-- From a known program where `P` holds, the step does a run below `r`. -/
def Keeps (src : Source) (site : Site) (r : NodeId) (P : Program → Prop) (m : Bind α) : Prop :=
  ∀ l p, Known src site r p → P p →
    Run src site.file site.collecting r (l, p) (Bind.after m (l, p))

namespace Keeps

variable {m : Bind α} {f : α → Bind β}

theorem pure (a : α) : Keeps src site r P (Pure.pure a) := fun _ _ _ _ => .refl

theorem weaken (hm : Keeps src site r P m) (h : ∀ p, Q p → P p) : Keeps src site r Q m :=
  fun l p hk hq => hm l p hk (h p hq)

/-- The next step may rely on what is known of the value of the one before. -/
theorem bind_of [Stable P] {R : α → Program → Prop} (hm : Keeps src site r P m)
    (hR : ∀ l p, Known src site r p → P p → R (Bind.value m (l, p)) (Bind.after m (l, p)).2)
    (hf : ∀ a, Keeps src site r (fun p => P p ∧ R a p) (f a)) : Keeps src site r P (m >>= f) := by
  intro l p hk hp
  have hrun := hm l p hk hp
  refine hrun.trans (hf _ _ _ (hk.run hrun) ⟨Stable.grows hrun.grows hp, hR l p hk hp⟩)

theorem bind [Stable P] (hm : Keeps src site r P m) (hf : ∀ a, Keeps src site r P (f a)) :
    Keeps src site r P (m >>= f) :=
  hm.bind_of (R := fun _ _ => True) (fun _ _ _ _ => trivial) fun a => (hf a).weaken fun _ h => h.1

/-- What only the first step relies on need not be stable. -/
theorem bind_first [Stable P] (hm : Keeps src site r Q m) (hQ : ∀ p, Q p → P p)
    (hf : ∀ a, Keeps src site r P (f a)) : Keeps src site r Q (m >>= f) := by
  intro l p hk hq
  have hrun := hm l p hk hq
  exact hrun.trans (hf _ _ _ (hk.run hrun) (Stable.grows hrun.grows (hQ p hq)))

theorem forM [Stable P] {xs : List α} {g : α → Bind Unit}
    (h : ∀ x ∈ xs, Keeps src site r P (g x)) : Keeps src site r P (xs.forM g) := by
  induction xs with
  | nil => exact pure _
  | cons x xs ih =>
    exact bind (h x List.mem_cons_self) fun _ => ih fun y hy => h y (List.mem_cons_of_mem _ hy)

theorem mapM [Stable P] {xs : List α} {g : α → Bind β}
    (h : ∀ x ∈ xs, Keeps src site r P (g x)) : Keeps src site r P (xs.mapM g) := by
  induction xs with
  | nil => exact pure _
  | cons x xs ih =>
    rw [List.mapM_cons]
    exact bind (h x List.mem_cons_self) fun _ =>
      bind (ih fun y hy => h y (List.mem_cons_of_mem _ hy)) fun _ => pure _

theorem foldlM [Stable P] {xs : List α} {g : β → α → Bind β}
    (h : ∀ b, ∀ x ∈ xs, Keeps src site r P (g b x)) (b : β) :
    Keeps src site r P (xs.foldlM g b) := by
  induction xs generalizing b with
  | nil => exact pure _
  | cons x xs ih =>
    rw [List.foldlM_cons]
    exact bind (h b x List.mem_cons_self) (ih fun b y hy => h b y (List.mem_cons_of_mem _ hy))

/-- A step that changes the program only. -/
theorem change {b : Build α} (h : ∀ p, Known src site r p → P p →
    Change src site.file r p (b.after p)) : Keeps src site r P (liftM b) :=
  fun _ p hk hp => .change (h p hk hp)

theorem read (g : Program → α) : Keeps src site r P (liftM (Build.read g)) := fun _ _ _ _ => .refl

/-- A scope is opened for the steps after it. -/
theorem openScope [Stable P] {kind : ScopeKind} {g : ScopeId → Bind β} (hs : src.LaidOut)
    (hat : ∀ p, Known src site r p → P p → At src site s p) (hn : src.Below r n)
    (hg : ∀ fs, Keeps src site r (fun p => P p ∧ At src site fs p ∧ OfKind fs kind p) (g fs)) :
    Keeps src site r P (Binding.openScope kind s n >>= g) := by
  refine bind_of ?_ ?_ hg
  · intro l p hk hp
    have hlt := (hat p hk hp s .refl).1
    exact (Run.change (.scope p kind s n hlt hn)).trans (.change (.markScope _ n _ (by simp) hn))
  · intro l p hk hp
    have hlt := (hat p hk hp s .refl).1
    have opened : Change src site.file r p _ := .scope p kind s n hlt hn
    have hafter : At src site s (Bind.after (Binding.openScope kind s n) (l, p)).2 :=
      Stable.grows (opened.grows.trans (.of_eq rfl rfl rfl)) (hat p hk hp)
    have hnew : (Bind.after (Binding.openScope kind s n) (l, p)).2.scope ⟨p.scopes.size⟩ =
        { kind := kind, parent := some s, node := some n } := by
      refine Eq.trans (Program.scope_modifyScope _) ?_
      rw [if_neg (by simp; omega), Program.scope_addScope, if_pos rfl]
    have hsize : p.scopes.size < (Bind.after (Binding.openScope kind s n) (l, p)).2.scopes.size := by
      refine lt_of_lt_of_eq ?_ Program.scopes_size_modifyScope.symm
      rw [Program.scopes_size_addScope]
      exact Nat.lt_succ_self _
    refine ⟨fun t ht => ?_, hsize, by exact congrArg Scope.kind hnew⟩
    rcases Relation.ReflTransGen.cases_head ht with rfl | ⟨u, hu, hut⟩
    · exact ⟨hsize, .inr (.inr ⟨n, congrArg Scope.node hnew, (hn.fileOf_eq hs).trans hk.file⟩)⟩
    · have hus : u = s := Option.some.inj (hu.symm.trans (congrArg Scope.parent hnew))
      exact hafter t (hus ▸ hut)

/-- What a visit declares is collected for the steps after it. -/
theorem collect [Stable P] {visit : Visit} {n : NodeId} {g : List SymbolId → Bind β}
    (hs : src.LaidOut) (hn : Secluded src r n)
    (hv : Keeps src { site with collecting := some s } n P
      (visit { site with collecting := some s } n s))
    (hg : ∀ found, Keeps src site r (fun p => P p ∧ In s found p) (g found)) :
    Keeps src site r P (collectDeclared visit site n s >>= g) := by
  have hrun : ∀ p, Known src site r p → P p →
      Run src site.file (some s) n ([], p)
        (Bind.after (visit { site with collecting := some s } n s) ([], p)) := fun p hk hp =>
    hv [] p { hk with file := (hn.below.fileOf_eq hs).trans hk.file } hp
  refine bind_of (fun l p hk hp => .nested s hn (hrun p hk hp)) (fun l p hk hp sym hsym => ?_) hg
  rcases (hrun p hk hp).scope_of_collected hsym with h | h
  · exact nomatch h
  · exact h

/-- A step inside a class. -/
theorem enclosed (cls? : Option SymbolId)
    (hm : Keeps src { site with enclosing := cls? } r P m) : Keeps src site r P m :=
  fun l p hk hp => hm l p { hk with } hp

/-- A step for types only. -/
theorem ambient (hm : Keeps src { site with ambient := true } r P m) : Keeps src site r P m :=
  fun l p hk hp => hm l p { hk with module := hk.module.ambient } hp

/-- A step in an ambient module. -/
theorem inModule {k : ModuleId}
    (hm : Keeps src { site with module := k, ambient := true } r P m)
    (hP : ∀ p, P p → Opened k s p) : Keeps src site r P m := by
  intro l p hk hp
  have hopen := hP p hp
  have hmodule : At src { site with module := k, ambient := true } (p.moduleInfo k).scope p := by
    rw [hopen.scope]
    exact .of_ambient hk.wellScoped rfl hopen.scope_lt
  exact hm l p { hk with module_lt := hopen.module_lt, module := hmodule } hp

end Keeps
end Binding
end Moniker
