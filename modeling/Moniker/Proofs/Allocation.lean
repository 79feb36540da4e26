/-
# Giving out names

An allocation is `Sound` for a program if no name it gave out is a keyword, reserved
or unresolved in the file of its declaration, is the name of a neighbour that keeps
its name, or was given out twice.  One step keeps this (`Sound.step`), so a whole pass
does, and after a pass every candidate has got a name (`Settled.allocate`).

Which symbols move is known before the first name is given out, and only more of
them move in the second pass.  So what counted as fixed when a domain came up first
still covers all symbols that keep their names.
-/

import Moniker.Proofs.Rivals
import Moniker.Proofs.ShortNames
import Mathlib.Data.List.Pairwise

namespace Moniker
namespace Allocator

open Program (Later)
open Build (Inquires)

variable {p q final : Program} {a : Allocator} {d : Domain} {e : Entry} {s : SymbolId}
  {s? : Option ScopeId} {unresolved : FileId → List String}

/-! ### Only types are worked out -/

theorem namesOf_inquires (a : Allocator) (d : Domain) : Inquires (a.namesOf d) := by
  unfold namesOf
  split
  · exact .pure _
  · exact .bind (domainFixed_inquires a d) fun _ => .pure _

theorem step_inquires (a : Allocator) (unresolved : FileId → List String) (e : Entry) :
    Inquires (a.step unresolved e) := by
  unfold step
  split
  · exact .pure _
  · exact .bind (namesOf_inquires a _) fun _ => .bind (.read _) fun _ =>
      .bind (.read _) fun _ => .pure _

theorem give_inquires (unresolved : FileId → List String) (given : List Renaming × Allocator)
    (e : Entry) : Inquires (give unresolved given e) :=
  .bind (step_inquires given.2 unresolved e) fun _ => .pure _

theorem allocate_inquires (a : Allocator) (candidates : List Entry) :
    Inquires (a.allocate candidates) :=
  .bind (.read _) fun _ => .foldlM (give_inquires _) _

/-! ### One step -/

/-- The names are what a domain starts with: its first pool, and the names that its
rivals keep. -/
def Starts (p final : Program) (moving : KeySet SymbolId) (d : Domain)
    (names : DomainNames) : Prop :=
  names.pool = startPool d ∧ Fixes p final moving names.fixed d

/-- The names of a domain are remembered, or worked out now; only the heirs may be
remembered besides. -/
theorem namesOf_cases (hw : WellScoped p) (ha : HeirsFound p final a.heirs) (d : Domain)
    (h : (a.namesOf d).RunAt p final q) :
    ∃ heirs, ((a.namesOf d).value q).2 = { a with heirs := heirs } ∧
      HeirsFound p final heirs ∧ (a.domains[d]? = some ((a.namesOf d).value q).1 ∨
        a.domains[d]? = none ∧ Starts p final a.moving d ((a.namesOf d).value q).1) := by
  have hafter := h.after
  unfold namesOf at hafter ⊢
  split
  · next names hnames => exact ⟨a.heirs, rfl, ha, .inl hnames⟩
  · next hnone =>
    rw [hnone] at hafter
    obtain ⟨heirs, hstate, hfound, hfixes⟩ := domainFixed_fixes hw ha d ⟨h.before, hafter⟩
    simp only [Build.value_bind, Build.value_pure]
    exact ⟨heirs, hstate, hfound, .inr ⟨hnone, rfl, hfixes⟩⟩

/-- What a step that gives a new name does. -/
structure Gives (p final : Program) (a : Allocator) (e : Entry) (unresolved : List String)
    (r : Renaming) (a' : Allocator) : Prop where
  symbol : r.symbol = e.symbol
  decl : r.decl = e.decl
  domain : r.domain = e.domain
  moving : a'.moving = a.moving
  reserved : a'.reserved = a.reserved
  done : a'.done = a.done.insert e.symbol
  heirs : HeirsFound p final a'.heirs
  allocated : a'.allocated =
    if isHardPrivate e.domain then a.allocated else r.target :: a.allocated
  names : ∃ names pool, (a.domains[e.domain]? = some names ∨
      a.domains[e.domain]? = none ∧ Starts p final a.moving e.domain names) ∧
    r.target ∉ a.taken names unresolved e.domain ∧ names.pool.Draws r.target pool ∧
    a'.domains = a.domains.insert e.domain { names with pool := pool }

/-- A symbol that has a new name keeps it; any other symbol gets one. -/
theorem step_cases (hw : WellScoped p) (ha : HeirsFound p final a.heirs) (e : Entry)
    (unresolved : FileId → List String) (h : (a.step unresolved e).RunAt p final q) :
    (e.symbol ∈ a.done ∧ (a.step unresolved e).value q = (none, a)) ∨
      (e.symbol ∉ a.done ∧ ∃ r, ((a.step unresolved e).value q).1 = some r ∧
        Gives p final a e (unresolved (p.source.fileOf e.decl)) r
          ((a.step unresolved e).value q).2) := by
  have hafter := h.after
  unfold step at hafter ⊢
  by_cases hdone : e.symbol ∈ a.done
  · exact .inl ⟨hdone, by rw [if_pos (Std.TreeSet.contains_iff_mem.mpr hdone)]; rfl⟩
  · refine .inr ⟨hdone, ?_⟩
    have hnew : ¬ a.done.contains e.symbol = true := mt Std.TreeSet.contains_iff_mem.mp hdone
    rw [if_neg hnew] at hafter ⊢
    obtain ⟨heirs, hstate, hfound, hnames⟩ := namesOf_cases hw ha e.domain ⟨h.before, hafter⟩
    have hlater := h.later.trans ((namesOf_inquires a e.domain).later q)
    simp only [Build.value_bind, Build.value_read, Build.after_read, Build.value_pure, hstate,
      Program.Extends.source_eq hlater]
    refine ⟨_, rfl, rfl, rfl, rfl, rfl, rfl, rfl, hfound, rfl, _, _, hnames, ?_, ?_, rfl⟩
    · exact NamePool.drawAvoiding_not_mem
    · exact NamePool.draws_draw _

/-! ### A whole pass -/

/-- The names given out so far are safe. -/
structure Sound (p final : Program) (a : Allocator) (out : List Renaming) : Prop where
  done : ∀ s, s ∈ a.done ↔ ∃ r ∈ out, r.symbol = s
  allocated : ∀ r ∈ out, isHardPrivate r.domain = false → r.target ∈ a.allocated
  symbols : out.Pairwise fun r r' => r.symbol ≠ r'.symbol
  targets : out.Pairwise fun r r' =>
    isHardPrivate r.domain = false → isHardPrivate r'.domain = false → r.target ≠ r'.target
  unresolved : ∀ r ∈ out, r.target ∉ p.unresolvedNames (p.source.fileOf r.decl)
  legal : ∀ r ∈ out, r.target ∉ keywords ∧ r.target ∉ a.reserved
  drawn : out.Pairwise fun r r' => r.domain = r'.domain → r.target ≠ r'.target
  spent : ∀ r ∈ out, ∃ names, a.domains[r.domain]? = some names ∧ names.pool.Spent r.target
  heads : ∀ d names, a.domains[d]? = some names → names.pool.head = (startPool d).head
  apart : ∀ r ∈ out, ∃ fixed, Fixes p final a.moving fixed r.domain ∧ r.target ∉ fixed
  fixes : ∀ d names, a.domains[d]? = some names → Fixes p final a.moving names.fixed d
  heirs : HeirsFound p final a.heirs

theorem Sound.start (reserved : List String) : Sound p final { reserved := reserved } [] where
  done s := by simp
  allocated _ h := nomatch h
  symbols := .nil
  targets := .nil
  unresolved _ h := nomatch h
  legal _ h := nomatch h
  drawn := .nil
  spent _ h := nomatch h
  heads d names h := by simp at h
  apart _ h := nomatch h
  fixes d names h := by simp at h
  heirs _ h := nomatch h

/-- More symbols may move. -/
theorem Sound.move {out : List Renaming} (h : Sound p final a out)
    (moving : KeySet SymbolId) (hm : ∀ s ∈ a.moving, s ∈ moving) :
    Sound p final { a with moving := moving } out where
  done := h.done
  allocated := h.allocated
  symbols := h.symbols
  targets := h.targets
  unresolved := h.unresolved
  legal := h.legal
  drawn := h.drawn
  spent := h.spent
  heads := h.heads
  apart r hr := by
    obtain ⟨fixed, hfixed, htarget⟩ := h.apart r hr
    exact ⟨fixed, hfixed.mono hm, htarget⟩
  fixes d names hd := (h.fixes d names hd).mono hm
  heirs := h.heirs

/-- **A step keeps the names given out safe.** -/
theorem Sound.step {out : List Renaming} {r : Renaming} {a' : Allocator}
    (h : Sound p final a out) (hnew : e.symbol ∉ a.done)
    (hg : Gives p final a e (p.unresolvedNames (p.source.fileOf e.decl)) r a') :
    Sound p final a' (out ++ [r]) := by
  obtain ⟨names, pool, hnames, htaken, hdraws, hdomains⟩ := hg.names
  have hfixes : Fixes p final a.moving names.fixed e.domain :=
    hnames.elim (h.fixes e.domain names) fun hstarts => hstarts.2.2
  simp only [taken, List.mem_append, not_or] at htaken
  obtain ⟨⟨⟨⟨hkeyword, hreserved⟩, hunresolved⟩, hallocated⟩, hfixed⟩ := htaken
  have hown : a'.domains[e.domain]? = some { names with pool := pool } := by
    rw [hdomains, Std.TreeMap.getElem?_insert_self]
  have hother : ∀ d ≠ e.domain, a'.domains[d]? = a.domains[d]? := by
    intro d hd
    rw [hdomains, Table.getElem?_insert, if_neg (by simpa using hd.symm)]
  -- What the domain has given out before, its pool has behind it.
  have hspent : ∀ r' ∈ out, r'.domain = e.domain → names.pool.Spent r'.target := by
    intro r' hr' hd
    obtain ⟨names', hnames', hspent⟩ := h.spent r' hr'
    rw [hd] at hnames'
    rcases hnames with hnames | ⟨hnone, _⟩
    · rw [hnames] at hnames'
      rwa [Option.some.inj hnames']
    · exact nomatch hnone.symm.trans hnames'
  have hhead : pool.head = (startPool e.domain).head := by
    have hstart : names.pool.head = (startPool e.domain).head :=
      hnames.elim (h.heads e.domain names) fun hstarts => congrArg NamePool.head hstarts.2.1
    obtain ⟨_, _, _, hpool⟩ := hdraws
    rw [hpool]
    exact hstart
  refine ⟨?_, ?_, ?_, ?_, ?_, ?_, ?_, ?_, ?_, ?_, ?_, hg.heirs⟩
  · intro s
    rw [hg.done, KeySet.mem_insert, h.done, beq_iff_eq, ← hg.symbol]
    simp only [List.mem_append, List.mem_singleton, or_and_right, exists_or, exists_eq_left]
    exact or_comm
  · intro r' hr' hhard
    rw [hg.allocated]
    rcases List.mem_append.mp hr' with hr' | hr'
    · split
      · exact h.allocated r' hr' hhard
      · exact List.mem_cons_of_mem _ (h.allocated r' hr' hhard)
    · rw [List.mem_singleton.mp hr'] at hhard ⊢
      rw [← hg.domain, hhard]
      exact List.mem_cons_self
  · refine List.pairwise_append.mpr ⟨h.symbols, List.pairwise_singleton _ _, ?_⟩
    intro r' hr' r'' hr'' heq
    rw [List.mem_singleton.mp hr'', hg.symbol] at heq
    exact hnew ((h.done _).mpr ⟨r', hr', heq⟩)
  · refine List.pairwise_append.mpr ⟨h.targets, List.pairwise_singleton _ _, ?_⟩
    intro r' hr' r'' hr'' hhard' hhard heq
    rw [List.mem_singleton.mp hr''] at hhard heq
    rw [← hg.domain, hhard, if_neg Bool.false_ne_true] at hallocated
    exact hallocated (heq ▸ h.allocated r' hr' hhard')
  · intro r' hr'
    rcases List.mem_append.mp hr' with hr' | hr'
    · exact h.unresolved r' hr'
    · rw [List.mem_singleton.mp hr', hg.decl]
      exact hunresolved
  · intro r' hr'
    rw [hg.reserved]
    rcases List.mem_append.mp hr' with hr' | hr'
    · exact h.legal r' hr'
    · rw [List.mem_singleton.mp hr']
      exact ⟨hkeyword, hreserved⟩
  · refine List.pairwise_append.mpr ⟨h.drawn, List.pairwise_singleton _ _, ?_⟩
    intro r' hr' r'' hr'' hd heq
    rw [List.mem_singleton.mp hr''] at hd heq
    exact (hspent r' hr' (hd.trans hg.domain)).ne_of_draws hdraws heq
  · intro r' hr'
    rcases List.mem_append.mp hr' with hr' | hr'
    · by_cases hd : r'.domain = e.domain
      · rw [hd]
        exact ⟨_, hown, (hspent r' hr' hd).of_draws hdraws⟩
      · rw [hother _ hd]
        exact h.spent r' hr'
    · rw [List.mem_singleton.mp hr', hg.domain]
      exact ⟨_, hown, hdraws.spent⟩
  · intro d names' hd
    by_cases heq : d = e.domain
    · rw [heq, hown] at hd
      rw [heq, ← Option.some.inj hd]
      exact hhead
    · rw [hother d heq] at hd
      exact h.heads d names' hd
  · intro r' hr'
    rw [hg.moving]
    rcases List.mem_append.mp hr' with hr' | hr'
    · exact h.apart r' hr'
    · rw [List.mem_singleton.mp hr', hg.domain]
      exact ⟨names.fixed, hfixes, hfixed⟩
  · intro d names' hd
    rw [hg.moving]
    by_cases heq : d = e.domain
    · rw [heq, hown] at hd
      rw [heq, ← Option.some.inj hd]
      exact hfixes
    · rw [hother d heq] at hd
      exact h.fixes d names' hd

/-- A name given out in a scope is not the name of a neighbour that keeps its own. -/
theorem Sound.name_ne_target {out : List Renaming} {r : Renaming} {c? : Option ScopeId}
    (h : Sound p final a out) (hr : r ∈ out) (hd : r.domain = .lexical c?)
    (hs : s ∈ neighbours p c?) (hm : s ∉ a.moving) : (p.symbol s).name ≠ r.target := by
  obtain ⟨fixed, hfixed, htarget⟩ := h.apart r hr
  rw [hd] at hfixed
  intro heq
  exact htarget (heq ▸ hfixed s hs hm)

/-- A domain gives out no name twice. -/
theorem Sound.target_ne {out : List Renaming} {r r' : Renaming} (h : Sound p final a out)
    (hr : r ∈ out) (hr' : r' ∈ out) (hd : r.domain = r'.domain) (hne : r ≠ r') :
    r.target ≠ r'.target := by
  have : Std.Symm fun r r' : Renaming => r.domain = r'.domain → r.target ≠ r'.target :=
    ⟨fun _ _ h hd heq => h hd.symm heq.symm⟩
  exact h.drawn.forall hr hr' hne hd

/-- The renaming is the new name of the entry. -/
def Renames (r : Renaming) (e : Entry) : Prop :=
  r.symbol = e.symbol ∧ r.decl = e.decl ∧ r.domain = e.domain

/-- What a pass made of the candidates `es`: the names stay safe, every candidate has
one, and each new one is that of a candidate. -/
structure Passed (p final : Program) (prior : List Renaming) (es : List Entry) (a : Allocator)
    (out : List Renaming) (a' : Allocator) (out' : List Renaming) : Prop where
  sound : Sound p final a' (prior ++ out')
  moving : a'.moving = a.moving
  reserved : a'.reserved = a.reserved
  kept : ∀ s ∈ a.done, s ∈ a'.done
  done : ∀ e ∈ es, e.symbol ∈ a'.done
  renames : ∀ r ∈ out', r ∈ out ∨ ∃ e ∈ es, Renames r e

/-- **Giving names to candidates one after another keeps all names safe.** -/
theorem Sound.giveAll {prior out : List Renaming} {es : List Entry}
    (unresolved : FileId → List String) (hw : WellScoped p)
    (hrun : (es.foldlM (give unresolved) (out, a)).RunAt p final q)
    (h : Sound p final a (prior ++ out))
    (hes : ∀ e ∈ es, unresolved (p.source.fileOf e.decl) =
      p.unresolvedNames (p.source.fileOf e.decl)) :
    Passed p final prior es a out ((es.foldlM (give unresolved) (out, a)).value q).2
      ((es.foldlM (give unresolved) (out, a)).value q).1 := by
  induction es generalizing out a q with
  | nil => exact ⟨h, rfl, rfl, fun _ hs => hs, fun _ he => (nomatch he), fun _ hr => .inl hr⟩
  | cons e es ih =>
    have hafter := hrun.after
    rw [List.foldlM_cons] at hafter
    have hgive : (a.step unresolved e).RunAt p final q :=
      ⟨hrun.before, (Inquires.foldlM (give_inquires unresolved) _ _).trans hafter⟩
    have hrest : (es.foldlM (give unresolved) ((give unresolved (out, a) e).value q)).RunAt p final
        ((a.step unresolved e).after q) :=
      ⟨hrun.before.trans (step_inquires a unresolved e q), hafter⟩
    have hes' := fun e' he' => hes e' (List.mem_cons_of_mem e he')
    have hvalue : (give unresolved (out, a) e).value q =
        (out ++ ((a.step unresolved e).value q).1.toList, ((a.step unresolved e).value q).2) := rfl
    have hgiven : (give unresolved (out, a) e).after q = (a.step unresolved e).after q := rfl
    rw [List.foldlM_cons, Build.value_bind, hvalue, hgiven]
    rw [hvalue] at hrest
    rcases step_cases hw h.heirs e unresolved hgive with ⟨hdone, hstep⟩ | ⟨hnew, r, hr, hg⟩
    · rw [hstep, Option.toList_none, List.append_nil] at hrest ⊢
      have rest := ih hrest h hes'
      refine ⟨rest.sound, rest.moving, rest.reserved, rest.kept, ?_, ?_⟩
      · exact List.forall_mem_cons.mpr ⟨rest.kept _ hdone, rest.done⟩
      · intro r hr
        exact (rest.renames r hr).imp_right fun ⟨e', he', hre⟩ =>
          ⟨e', List.mem_cons_of_mem _ he', hre⟩
    · rw [hr, Option.toList_some] at hrest ⊢
      rw [hes e List.mem_cons_self] at hg
      have hsound := h.step hnew hg
      rw [List.append_assoc] at hsound
      have rest := ih hrest hsound hes'
      have hkept : ∀ s, s = e.symbol ∨ s ∈ a.done → s ∈ ((a.step unresolved e).value q).2.done := by
        intro s hs
        rw [hg.done, KeySet.mem_insert]
        exact hs.imp_left fun hs => by rw [hs]; exact beq_self_eq_true _
      refine ⟨rest.sound, rest.moving.trans hg.moving, rest.reserved.trans hg.reserved, ?_, ?_, ?_⟩
      · exact fun s hs => rest.kept s (hkept s (.inr hs))
      · exact List.forall_mem_cons.mpr ⟨rest.kept _ (hkept _ (.inl rfl)), rest.done⟩
      · intro r' hr'
        rcases rest.renames r' hr' with hr' | ⟨e', he', hre⟩
        · rcases List.mem_append.mp hr' with hr' | hr'
          · exact .inl hr'
          · rw [List.mem_singleton.mp hr']
            exact .inr ⟨e, List.mem_cons_self, hg.symbol, hg.decl, hg.domain⟩
        · exact .inr ⟨e', List.mem_cons_of_mem _ he', hre⟩

/-- The names left unresolved in a file are looked up by its number. -/
theorem getD_unresolvedNames {f : FileId} (hq : Later p q) (hf : f ∈ p.source.fileIds) :
    (q.source.fileIds.map q.unresolvedNames).getD f.idx [] = p.unresolvedNames f := by
  have hnames : q.unresolvedNames f = p.unresolvedNames f := by
    unfold Program.unresolvedNames
    rw [Program.Extends.unresolved_eq hq, Program.Extends.source_eq hq]
  have hlt := Source.mem_fileIds.mp hf
  rw [Program.Extends.source_eq hq, Source.fileIds, List.map_map, List.getD_eq_getElem?_getD,
    List.getElem?_map, List.getElem?_range hlt]
  exact hnames

theorem mem_foldl_insert {es : List Entry} {moving : KeySet SymbolId} :
    s ∈ es.foldl (fun m e => m.insert e.symbol) moving ↔ s ∈ moving ∨ ∃ e ∈ es, e.symbol = s := by
  induction es generalizing moving with
  | nil => simp
  | cons e es ih =>
    rw [List.foldl_cons, ih, KeySet.mem_insert, beq_iff_eq, List.exists_mem_cons_iff]
    tauto

/-- What is true of the names given out between two passes: they are safe, and what
moves has one. -/
structure Settled (p final : Program) (a : Allocator) (out : List Renaming) : Prop where
  sound : Sound p final a out
  moved : ∀ s ∈ a.moving, ∃ r ∈ out, r.symbol = s

/-- **After a pass every candidate has a name, and all names are safe.** -/
theorem Settled.allocate {prior : List Renaming} {es : List Entry} (hw : WellScoped p)
    (hrun : (a.allocate es).RunAt p final q) (h : Settled p final a prior)
    (hes : ∀ e ∈ es, p.source.fileOf e.decl ∈ p.source.fileIds) :
    Settled p final ((a.allocate es).value q).2 (prior ++ ((a.allocate es).value q).1) ∧
      ((a.allocate es).value q).2.reserved = a.reserved ∧
      ∀ r ∈ ((a.allocate es).value q).1, ∃ e ∈ es, Renames r e := by
  have hafter := hrun.after
  rw [Allocator.allocate, Build.after_bind, Build.after_read, Build.value_read] at hafter
  rw [Allocator.allocate, Build.value_bind, Build.after_read, Build.value_read]
  dsimp only at hafter ⊢
  have hmoving : ∀ s ∈ a.moving, s ∈ es.foldl (fun m e => m.insert e.symbol) a.moving := by
    intro s hs
    rw [mem_foldl_insert]
    exact .inl hs
  have hsound := h.sound.move _ hmoving
  rw [← List.append_nil prior] at hsound
  have hpass := hsound.giveAll
    (fun f => (q.source.fileIds.map q.unresolvedNames).getD f.idx []) hw
    ⟨hrun.before, hafter⟩ fun e he => getD_unresolvedNames hrun.later (hes e he)
  refine ⟨⟨hpass.sound, fun s hs => ?_⟩, hpass.reserved, fun r hr => ?_⟩
  · refine (hpass.sound.done s).mp ?_
    rw [hpass.moving, mem_foldl_insert] at hs
    rcases hs with hs | ⟨e, he, rfl⟩
    · exact hpass.kept s ((h.sound.done s).mpr (h.moved s hs))
    · exact hpass.done e he
  · rcases hpass.renames r hr with hr | hr
    · exact nomatch hr
    · exact hr

end Allocator
end Moniker
