/-
# The passes one after another

`opened`, `bound` and `linked` name the program after the first three passes.  The
first makes a module and a scope for every file (`opening`), the second is a run of
steps for every file, each from a program that is `Known` for it (`bound_induction`),
the third records what identifiers denote and nothing else (`unlinked_linked`), and
the last only works out types (`extends_linked`).
-/

import Moniker.Program.Build
import Moniker.Proofs.Binding.Files
import Moniker.Proofs.Binding.Origins

namespace Moniker
namespace Program

open Binding (OfKind Stable Known At Site Filed Between topNodes visitTop)

/-- The program with a module for every file. -/
def opened (src : Source) : Program :=
  (src.fileIds.forM (openModule src)).after
    ((Build.newScope .global none none).after { source := src })

/-- The program with everything declared. -/
def bound (src : Source) : Program := (src.fileIds.forM (Binding.bindFile src)).after (opened src)

/-- The program with all identifiers linked. -/
def linked (src : Source) : Program :=
  (src.fileIds.forM (References.linkFile src)).after (bound src)

/-- **The last pass only works out types.** -/
theorem extends_linked (src : Source) : Extends src (linked src) (ofSource src) :=
  Build.after_forM (I := Extends src (linked src))
    (fun f _ p hp => hp.trans ((Typing.checkFile src f).keeps p fun _ h =>
      absurd h List.not_mem_nil)) (.refl _)

/-! ### Modules -/

variable {src : Source} {f : FileId} {p q : Program} {s : SymbolId}

/-- The file is a module with a scope of its own. -/
structure IsModule (src : Source) (f : FileId) (p : Program) : Prop where
  module_lt : f.idx < p.modules.size
  file : (p.moduleOf f).file = f
  kind : OfKind (p.moduleOf f).scope .ofModule p
  node : (p.scope (p.moduleOf f).scope).node = some (src.file f).root
  parent : (p.scope (p.moduleOf f).scope).parent = some globalScope

instance : Stable (IsModule src f) where
  grows {p q} h hp := by
    have hm := h.module ⟨f.idx⟩ hp.module_lt
    have hscope : (q.moduleOf f).scope = (p.moduleOf f).scope := hm.scope
    have hs := h.scope _ hp.kind.1
    refine ⟨hp.module_lt.trans_le h.modules_le, hm.file.trans hp.file, ?_, ?_, ?_⟩
    · rw [hscope]
      exact Stable.grows h hp.kind
    · rw [hscope, hs.node]
      exact hp.node
    · rw [hscope, hs.parent]
      exact hp.parent

/-- A program with modules for the first `k` files and nothing declared. -/
structure Opening (src : Source) (k : Nat) (p : Program) : Prop where
  wellScoped : WellScoped p
  global : OfKind globalScope .global p
  global_parent : (p.scope globalScope).parent = none
  modules_size : p.modules.size = k
  module : ∀ f : FileId, f.idx < k → IsModule src f p
  source : p.source = src
  scopeless : ∀ s, (p.symbol s).scope = none
  unfollowed : p.Unfollowed
  declared : p.declared = {}
  referenced : p.referenced = {}
  unresolved : p.unresolved = #[]
  tables : p.tables = #[]
  ambientByName : p.ambientByName = {}

theorem opening_zero (src : Source) :
    Opening src 0 ((Build.newScope .global none none).after { source := src }) := by
  have hscope : ∀ c, ((Build.newScope .global none none).after { source := src }).scope c =
      if c.idx = 0 then { kind := .global, parent := none, node := none } else default :=
    fun c => scope_addScope c
  have hempty : ∀ c, let sc := ((Build.newScope .global none none).after { source := src }).scope c
      sc.parent = none ∧ sc.symbols = [] ∧ sc.values = {} ∧ sc.types = {} := by
    intro c
    dsimp only
    rw [hscope]
    split <;> exact ⟨rfl, rfl, rfl, rfl⟩
  refine
    { wellScoped := ⟨?_, ?_, ?_, ?_, ?_⟩
      global := ⟨Nat.one_pos, by rw [hscope]; rfl⟩
      global_parent := (hempty _).1
      modules_size := rfl
      module := fun _ h => nomatch h
      source := rfl
      scopeless := fun s => by rw [symbol_of_size_le (Nat.zero_le _)]; rfl
      unfollowed := fun s => by rw [symbol_of_size_le (Nat.zero_le _)]; rfl
      declared := rfl, referenced := rfl, unresolved := rfl, tables := rfl, ambientByName := rfl }
  · intro c outer h
    rw [(hempty c).1] at h
    exact nomatch h
  · intro c outer h
    rw [(hempty c).1] at h
    exact nomatch h
  · intro c s h
    rw [(hempty c).2.1] at h
    exact nomatch h
  · intro c x s h
    rw [Scope.Knows, (hempty c).2.2.1, (hempty c).2.2.2] at h
    simp at h
  · intro c s h
    rw [(hempty c).2.1] at h
    exact nomatch h

theorem opening_succ {k : Nat} (h : Opening src k p) :
    Opening src (k + 1) ((openModule src ⟨k⟩).after p) := by
  -- A scope below the global one, a symbol for the module, and the module.
  let f : FileId := ⟨k⟩
  let root := (src.file f).root
  let p₁ := (p.addScope { kind := .ofModule, parent := some globalScope, node := some root }).modifyScope
    globalScope fun o => { o with children := o.children ++ [⟨p.scopes.size⟩] }
  let sym : Symbol := { name := (src.file f).path, traits := Traits.of [.moduleItself], file := f }
  let m : Module :=
    { name := (src.file f).path, file := f, scope := ⟨p.scopes.size⟩, symbol := ⟨p₁.symbols.size⟩
      isScript := !hasModuleSyntax src root }
  have hgrows : Grows p ((openModule src f).after p) := by
    have hchange : Binding.Change src f root p p₁ := .scope p .ofModule _ root h.global.1 .refl
    exact (hchange.grows.trans (.addSymbol sym)).trans (.pushModule m rfl rfl rfl)
  have hmodule : ((openModule src f).after p).moduleOf f = m :=
    getD_push.trans (if_pos h.modules_size.symm)
  have hscope : ((openModule src f).after p).scope ⟨p.scopes.size⟩ =
      { kind := .ofModule, parent := some globalScope, node := some root } := by
    refine (scope_modifyScope _).trans ?_
    rw [if_neg (fun hid => h.global.1.ne hid.1), scope_addScope, if_pos rfl]
  have hlt : p.scopes.size < ((openModule src f).after p).scopes.size :=
    lt_of_lt_of_eq (Nat.lt_succ_self _)
      (scopes_size_modifyScope.trans scopes_size_addScope).symm
  refine
    { wellScoped := ((h.wellScoped.openScope h.global.1).addSymbol sym).of_eq rfl rfl
      global := Stable.grows hgrows h.global
      global_parent := (hgrows.scope _ h.global.1).parent.trans h.global_parent
      modules_size := (Array.size_push ..).trans (congrArg (· + 1) h.modules_size)
      module := fun g hg => ?_
      source := h.source
      scopeless := fun s => ?_
      unfollowed := h.unfollowed.addSymbol rfl
      declared := h.declared, referenced := h.referenced, unresolved := h.unresolved
      tables := h.tables, ambientByName := h.ambientByName }
  · rcases Nat.lt_succ_iff_lt_or_eq.mp hg with hg | hg
    · exact Stable.grows hgrows (h.module g hg)
    · have hgf : g = f := congrArg FileId.mk hg
      rw [hgf]
      refine ⟨?_, ?_, ?_, ?_, ?_⟩
      · exact lt_of_lt_of_eq (Nat.lt_succ_of_le h.modules_size.ge) (Array.size_push ..).symm
      · rw [hmodule]
      · rw [hmodule]
        exact ⟨hlt, congrArg Scope.kind hscope⟩
      · rw [hmodule]
        exact congrArg Scope.node hscope
      · rw [hmodule]
        exact congrArg Scope.parent hscope
  · refine (congrArg Symbol.scope (symbol_addSymbol s)).trans ?_
    split
    · rfl
    · exact h.scopeless s

theorem opening (src : Source) : Opening src src.files.size (opened src) := by
  have h : ∀ k, Opening src k ((((List.range k).map FileId.mk).forM (openModule src)).after
      ((Build.newScope .global none none).after { source := src })) := by
    intro k
    induction k with
    | zero => exact opening_zero src
    | succ k ih =>
      rw [List.range_succ, List.map_append, Build.after_forM_append]
      exact opening_succ ih
  exact h _

/-! ### Declarations -/

/-- What the visit of any file starts from. -/
def Ready (src : Source) (p : Program) : Prop :=
  ∀ f ∈ src.fileIds, Known src (Site.ofFile src f) (src.file f).root p

theorem Opening.ready (hs : src.LaidOut) (h : Opening src src.files.size p) : Ready src p := by
  intro f hf
  have hm := h.module f (Source.mem_fileIds.mp hf)
  refine
    { file := (hs.root hf).2.2
      wellScoped := h.wellScoped
      global := h.global
      global_parent := h.global_parent
      module_lt := hm.module_lt
      module := fun t ht => ?_
      ambient := fun hname => ?_ }
  · rcases Relation.ReflTransGen.cases_head ht with rfl | ⟨u, hu, hut⟩
    · exact ⟨hm.kind.1, .inr (.inr ⟨_, hm.node, (hs.root hf).2.2⟩)⟩
    · -- Around the scope of a file there is only the global one.
      have hglobal : globalScope = u := Option.some.inj (hm.parent.symm.trans hu)
      rcases Relation.ReflTransGen.cases_head hut with rfl | ⟨v, hv, _⟩
      · exact ⟨hglobal ▸ h.global.1, .inl hglobal.symm⟩
      · rw [← hglobal] at hv
        exact nomatch hv.symm.trans h.global_parent
  · rw [h.ambientByName] at hname
    simp at hname

/-- **Whatever a run for a file keeps holds once everything is declared.** -/
theorem bound_induction {I : Program → Prop} (hs : src.LaidOut) (hp : I (opened src))
    (h : ∀ f ∈ src.fileIds, ∀ p, Ready src p → I p → I ((Binding.bindFile src f).after p)) :
    Ready src (bound src) ∧ I (bound src) := by
  refine Build.after_forM (I := fun p => Ready src p ∧ I p) (fun f hf p hp => ?_)
    ⟨(opening src).ready hs, hp⟩
  obtain ⟨l, hrun⟩ := Binding.bindFile_run hs (hp.1 f hf)
  exact ⟨fun g hg => (hp.1 g hg).run hrun, h f hf p hp.1 hp.2⟩

/-- **What the visit of a statement at the top of a file brings about holds once
everything is declared,** if runs below other nodes keep it. -/
theorem bound_of_top {I : Program → Prop} {n : NodeId} (hs : src.LaidOut) (hf : f ∈ src.fileIds)
    (hn : n ∈ topNodes src f)
    (start : ∀ st sc, Between src f sc st → I (Binding.Bind.after (visitTop src f sc n) st).2)
    (keep : ∀ {file r st st'}, Binding.Run src file none r st st' →
      (∀ x, src.Below n x → ¬ src.Below r x) → I st.2 → I st'.2) : I (bound src) := by
  have hchild := (List.mem_filter.mp hn).1
  have hfile : ∀ {x}, src.Below n x → src.fileOf x = f := fun hx =>
    (hx.fileOf_eq hs).trans ((hs.file_eq hchild).trans (hs.root hf).2.2)
  unfold bound
  rw [Build.after_forM_eq]
  refine foldl_of_mem (J := Ready src) hf (fun g hg p hready => ?_) (fun p hready => ?_)
    (fun g hg hne p hready hp => ?_) ((opening src).ready hs)
  · obtain ⟨l, hrun⟩ := Binding.bindFile_run hs (hready g hg)
    exact fun g hg => (hready g hg).run hrun
  · refine Binding.bindFile_of_mem hs hn start (fun m hm hne st st' hrun => ?_) (hready f hf)
    exact keep hrun fun x hnx hmx =>
      hne (hs.sibling_eq (List.mem_filter.mp hm).1 hchild hmx hnx)
  · obtain ⟨l, hrun⟩ := Binding.bindFile_run hs (hready g hg)
    exact keep hrun (fun x hnx hgx => hne
      (((hs.root hg).2.2.symm.trans (hgx.fileOf_eq hs).symm).trans (hfile hnx))) hp

/-- What every run keeps holds once everything is declared. -/
theorem bound_of_run {I : Program → Prop} (hs : src.LaidOut) (hp : I (opened src))
    (h : ∀ {file c r st st'}, Binding.Run src file c r st st' → I st.2 → I st'.2) :
    I (bound src) := by
  refine (bound_induction hs hp fun f hf p hready hp => ?_).2
  obtain ⟨l, hrun⟩ := Binding.bindFile_run hs (hready f hf)
  exact h hrun hp

theorem wellScoped_bound (hs : src.LaidOut) : WellScoped (bound src) :=
  bound_of_run hs (opening src).wellScoped fun h => h.wellScoped

theorem isModule_bound (hs : src.LaidOut) (hf : f ∈ src.fileIds) : IsModule src f (bound src) :=
  bound_of_run hs ((opening src).module f (Source.mem_fileIds.mp hf)) fun h => Stable.grows h.grows

theorem filed_bound (hs : src.LaidOut) : Filed src (bound src) := by
  have hopening := opening src
  refine (bound_induction (I := Filed src) hs ?_ fun f hf p hready hp => ?_).2
  · refine ⟨hopening.wellScoped, hopening.global, fun h => ?_, fun {t e} h => ?_⟩
    · rw [hopening.declared] at h
      simp at h
    · rw [table_of_size_le (by rw [hopening.tables]; exact Nat.zero_le _)] at h
      exact nomatch h
  · obtain ⟨l, hrun⟩ := Binding.bindFile_run hs (hready f hf)
    exact hrun.filed hs (hs.root hf).2.2 hp

/-- What a program says apart from what is declared. -/
def undeclared (p : Program) : Program :=
  { p with
    symbols := #[], scopes := #[], tables := #[], modules := #[], ambientByName := {}, declared := {}
    specifiers := {}, scopeAt := {}, shapeAt := {}, classAt := {} }

theorem undeclared_change {file : FileId} {r : NodeId} (h : Binding.Change src file r p q) :
    q.undeclared = p.undeclared := by
  cases h <;> rfl

/-- **Declaring does not link anything.** -/
theorem undeclared_run {file : FileId} {c : Option ScopeId} {r : NodeId} {st st' : Binding.State}
    (h : Binding.Run src file c r st st') : st'.2.undeclared = st.2.undeclared := by
  induction h with
  | refl => rfl
  | trans _ _ ih₁ ih₂ => exact ih₂.trans ih₁
  | within _ _ ih => exact ih
  | change h => exact undeclared_change h
  | introduce => rfl
  | nested _ _ _ ih => exact ih

theorem undeclared_bound (hs : src.LaidOut) : (bound src).undeclared = (opened src).undeclared :=
  bound_of_run (I := fun p => p.undeclared = (opened src).undeclared) hs rfl
    fun h hp => (undeclared_run h).trans hp

theorem source_bound (hs : src.LaidOut) : (bound src).source = src :=
  (congrArg Program.source (undeclared_bound hs)).trans (opening src).source

/-! ### Links -/

/-- What a program says apart from what identifiers denote. -/
def unlinked (p : Program) : Program := { p with referenced := {}, unresolved := #[], uses := {} }

theorem unlinked_link {n : NodeId} {s : ScopeId} {found : Option SymbolId} :
    ((References.link src n s found).after p).unlinked = p.unlinked := by
  unfold References.link
  simp only [Build.after_bind, Build.after_read, Build.value_read]
  split <;> rfl

theorem unlinked_linkWithin (fuel : Nat) (n : NodeId) (s : ScopeId) :
    ((References.linkWithin src fuel n s).after p).unlinked = p.unlinked := by
  induction fuel generalizing n s p with
  | zero => rfl
  | succ fuel ih =>
    unfold References.linkWithin
    rw [Build.after_bind, Build.after_read, Build.value_read]
    split
    iterate 3
      rw [Build.after_readIf]
      split
      · rw [Build.after_bind, Build.after_read]
        exact unlinked_link
      · rfl
    exact Build.after_forM (I := fun q => q.unlinked = p.unlinked)
      (fun c _ q hq => (ih c _).trans hq) rfl

theorem unlinked_linkFile (f : FileId) :
    ((References.linkFile src f).after p).unlinked = p.unlinked := unlinked_linkWithin ..

/-- **Linking identifiers changes nothing else.** -/
theorem unlinked_linked (src : Source) : (linked src).unlinked = (bound src).unlinked :=
  Build.after_forM (I := fun q => q.unlinked = (bound src).unlinked)
    (fun f _ _ hq => (unlinked_linkFile f).trans hq) rfl

theorem scopes_linked (src : Source) : (linked src).scopes = (bound src).scopes :=
  show (linked src).unlinked.scopes = (bound src).unlinked.scopes by rw [unlinked_linked]

theorem symbols_linked (src : Source) : (linked src).symbols = (bound src).symbols :=
  show (linked src).unlinked.symbols = (bound src).unlinked.symbols by rw [unlinked_linked]

theorem modules_linked (src : Source) : (linked src).modules = (bound src).modules :=
  show (linked src).unlinked.modules = (bound src).unlinked.modules by rw [unlinked_linked]

theorem declared_linked (src : Source) : (linked src).declared = (bound src).declared :=
  show (linked src).unlinked.declared = (bound src).unlinked.declared by rw [unlinked_linked]

/-- Nothing has been asked before a program is checked. -/
theorem unfollowed_linked (hs : src.LaidOut) : (linked src).Unfollowed := by
  intro s
  rw [symbol, symbols_linked]
  exact bound_of_run (I := Unfollowed) hs (opening src).unfollowed (fun h => h.unfollowed) s

theorem source_ofSource (hs : src.LaidOut) : (ofSource src).source = src := by
  rw [(extends_linked src).source_eq]
  exact (congrArg Program.source (unlinked_linked src)).trans (source_bound hs)

/-- **Scopes of a program are well formed.** -/
theorem wellScoped_ofSource (hs : src.LaidOut) : WellScoped (ofSource src) :=
  (extends_linked src).wellScoped
    ((wellScoped_bound hs).of_eq (scopes_linked src) (symbols_linked src))

/-! ### The finished program -/

theorem symbols_size_of_scope (h : (p.symbol s).scope ≠ none) : s.idx < p.symbols.size := by
  by_contra hge
  rw [symbol_of_size_le (not_lt.mp hge)] at h
  exact h rfl

/-- A symbol that has been declared stays what it is. -/
theorem symbol_kept_ofSource (h : s.idx < (bound src).symbols.size) :
    ((bound src).symbol s).Kept ((ofSource src).symbol s) := by
  have hsym : (linked src).symbol s = (bound src).symbol s := by
    rw [Program.symbol, Program.symbol, symbols_linked]
  rw [← symbols_linked] at h
  exact hsym ▸ (extends_linked src).symbol_kept h

/-- A symbol of a scope is what it was when everything was declared. -/
theorem kept_ofSource (h : ((ofSource src).symbol s).scope ≠ none) :
    s.idx < (bound src).symbols.size ∧ ((bound src).symbol s).Kept ((ofSource src).symbol s) := by
  have hlt : s.idx < (bound src).symbols.size := by
    rw [← symbols_linked]
    by_contra hge
    exact h ((extends_linked src).scope_new (not_lt.mp hge))
  exact ⟨hlt, symbol_kept_ofSource hlt⟩

/-- Apart from keys of object literals names declare what they did. -/
theorem declared_ofSource {n : NodeId} (hn : ¬ src.IsLiteralKey n) :
    (ofSource src).declared[n]? = (bound src).declared[n]? := by
  rw [(extends_linked src).declared_eq hn, declared_linked]

/-- No declaration is lost. -/
theorem contains_declared_ofSource {n : NodeId} (h : (bound src).declared.contains n = true) :
    (ofSource src).declared.contains n = true := by
  rw [← declared_linked] at h
  rw [Std.TreeMap.contains_eq_isSome_getElem?] at h ⊢
  rcases (extends_linked src).declared_cases n with heq | ⟨s, hs, _⟩
  · rw [heq]
    exact h
  · rw [hs]
    rfl

theorem moduleInfo_ofSource (m : ModuleId) : (ofSource src).moduleInfo m = (bound src).moduleInfo m := by
  rw [moduleInfo, moduleInfo, (extends_linked src).modules_eq, modules_linked]

/-- A program has the files it is built from. -/
theorem fileIds_of_build {files : List ParsedFile} (h : build files = .ok p) :
    p.source.fileIds = (List.range files.length).map FileId.mk := by
  unfold build at h
  cases hl : layOut files {} with
  | error e =>
    rw [hl] at h
    exact nomatch h
  | ok src =>
    rw [hl] at h
    obtain rfl : ofSource src = p := Except.ok.inj h
    rw [source_ofSource (laidOut_layOut Source.laidOut_empty hl), Source.fileIds,
      size_files_layOut hl]
    exact congrArg (fun k => (List.range k).map FileId.mk) (Nat.zero_add _)

end Program
end Moniker
