/-
# What is remembered of aliases

Following an alias changes a program: the target of each step is remembered, and a
namespace gets the exports of its module as its members.  Nothing that a look-up reads
is touched by that.  `Remembers p q` says that `q` is `p` with more of it remembered:
the symbols differ in their members and remembered targets only, and every alias has
the next step it had.  So it does not matter when an alias is followed: it ends where it
ends in `p` (`Remembers.aliasEnd_eq`).
-/

import Moniker.Proofs.Inquiry

namespace Moniker

/-- A symbol apart from its members and what is remembered of it. -/
def Symbol.bare (s : Symbol) : Symbol := { s with members := none, target := none }

namespace Program

variable {p q r : Program} {s : SymbolId}

/-- The next symbol an alias leads to: the one remembered, if there is one. -/
def nextOf (p : Program) (s : SymbolId) : Option SymbolId :=
  (p.symbol s).target.getD (p.aliasStep? (p.symbol s))

/-- Where an alias ends within a number of steps. -/
def aliasEndWithin (p : Program) : Nat → SymbolId → Option SymbolId
  | 0, _ => none
  | fuel + 1, s =>
    if (p.symbol s).isAlias then (p.nextOf s).bind (aliasEndWithin p fuel) else some s

/-- The declaration an alias stands for. -/
def aliasEnd (p : Program) (s : SymbolId) : Option SymbolId := p.aliasEndWithin maxAliasSteps s

/-- The program with more of its aliases remembered. -/
structure Remembers (p q : Program) : Prop where
  frame : q.frame = p.frame
  size : q.symbols.size = p.symbols.size
  bare : ∀ s, (q.symbol s).bare = (p.symbol s).bare
  next : ∀ s, q.nextOf s = p.nextOf s

/-! ### Look-ups read the frame -/

theorem outward_frame (p : Program) (c : ScopeId) : p.frame.outward c = p.outward c :=
  @outward_congr p p.frame rfl c

theorem export?_frame (p : Program) (m : ModuleId) (name : String) :
    p.frame.export? m name = p.export? m name := by
  have hwithin : ∀ fuel m seen,
      p.frame.exportWithin name fuel m seen = p.exportWithin name fuel m seen := by
    intro fuel
    induction fuel with
    | zero => exact fun _ _ => rfl
    | succ fuel ih =>
      intro m seen
      unfold exportWithin
      simp only [ih]
      rfl
  exact congrArg Prod.fst (hwithin _ m [])

theorem aliasStep?_frame (p : Program) (sym : Symbol) :
    p.frame.aliasStep? sym = p.aliasStep? sym := by
  simp only [aliasStep?, localTarget?, lookupValue?, lookupType?, outward_frame, export?_frame]
  rfl

theorem aliasStep?_of_bare {x y : Symbol} (h : x.bare = y.bare) :
    p.aliasStep? x = p.aliasStep? y :=
  show p.aliasStep? x.bare = p.aliasStep? y.bare by rw [h]

namespace Remembers

theorem refl (p : Program) : Remembers p p := ⟨rfl, rfl, fun _ => rfl, fun _ => rfl⟩

theorem trans (h₁ : Remembers p q) (h₂ : Remembers q r) : Remembers p r where
  frame := h₂.frame.trans h₁.frame
  size := h₂.size.trans h₁.size
  bare s := (h₂.bare s).trans (h₁.bare s)
  next s := (h₂.next s).trans (h₁.next s)

variable (h : Remembers p q)
include h

theorem source_eq : q.source = p.source :=
  show q.frame.source = p.frame.source by rw [h.frame]

theorem referenced_eq : q.referenced = p.referenced :=
  show q.frame.referenced = p.frame.referenced by rw [h.frame]

theorem moduleOf_eq (f : FileId) : q.moduleOf f = p.moduleOf f :=
  show q.frame.moduleOf f = p.frame.moduleOf f by rw [h.frame]

theorem isExternal_eq (f : FileId) (spec : String) : q.isExternal f spec = p.isExternal f spec :=
  show q.frame.isExternal f spec = p.frame.isExternal f spec by rw [h.frame]

theorem name_eq (s : SymbolId) : (q.symbol s).name = (p.symbol s).name :=
  show (q.symbol s).bare.name = (p.symbol s).bare.name by rw [h.bare]

theorem has_eq (s : SymbolId) (t : Trait) : (q.symbol s).has t = (p.symbol s).has t :=
  show (q.symbol s).bare.has t = (p.symbol s).bare.has t by rw [h.bare]

theorem isAlias_eq (s : SymbolId) : (q.symbol s).isAlias = (p.symbol s).isAlias :=
  show (q.symbol s).bare.isAlias = (p.symbol s).bare.isAlias by rw [h.bare]

theorem decls_eq (s : SymbolId) : (q.symbol s).decls = (p.symbol s).decls :=
  show (q.symbol s).bare.decls = (p.symbol s).bare.decls by rw [h.bare]

theorem scopeOf_eq (s : SymbolId) : (q.symbol s).scope = (p.symbol s).scope :=
  show (q.symbol s).bare.scope = (p.symbol s).bare.scope by rw [h.bare]

theorem fileOf_eq (s : SymbolId) : (q.symbol s).file = (p.symbol s).file :=
  show (q.symbol s).bare.file = (p.symbol s).bare.file by rw [h.bare]

theorem importedName_eq (s : SymbolId) : (q.symbol s).importedName = (p.symbol s).importedName :=
  show (q.symbol s).bare.importedName = (p.symbol s).bare.importedName by rw [h.bare]

theorem aliasEndWithin_eq (fuel : Nat) : q.aliasEndWithin fuel = p.aliasEndWithin fuel := by
  induction fuel with
  | zero => rfl
  | succ fuel ih =>
    funext s
    unfold aliasEndWithin
    rw [h.isAlias_eq, h.next, ih]

/-- **An alias ends where it ends.** -/
theorem aliasEnd_eq (s : SymbolId) : q.aliasEnd s = p.aliasEnd s :=
  congrFun (h.aliasEndWithin_eq maxAliasSteps) s

end Remembers

/-! ### Following an alias -/

/-- A change of members and remembered targets that leaves the next step as it is. -/
theorem Remembers.of_modify {f : Symbol → Symbol} (hf : ∀ x, (f x).bare = x.bare)
    (hnext : (f (p.symbol s)).target.getD (p.aliasStep? (p.symbol s)) = p.nextOf s) :
    Remembers p (p.modifySymbol s f) := by
  have hbare : ∀ t, ((p.modifySymbol s f).symbol t).bare = (p.symbol t).bare := by
    intro t
    rw [symbol_modifySymbol]
    split
    · exact hf _
    · rfl
  refine ⟨rfl, symbols_size_modifySymbol, hbare, fun t => ?_⟩
  have hstep : (p.modifySymbol s f).aliasStep? ((p.modifySymbol s f).symbol t) =
      p.aliasStep? (p.symbol t) := by
    rw [aliasStep?_of_bare (hbare t), ← aliasStep?_frame, ← aliasStep?_frame p]
    rfl
  rw [nextOf, nextOf, hstep, symbol_modifySymbol]
  split
  · next heq =>
    obtain rfl : s = t := congrArg SymbolId.mk heq.1
    exact hnext
  · rfl

theorem Remembers.setMembers (t : Option TableId) :
    Remembers p (p.modifySymbol s fun x => { x with members := t }) := .of_modify (fun _ => rfl) rfl

theorem Remembers.setTarget {next? : Option SymbolId} (h : next? = p.nextOf s) :
    Remembers p (p.modifySymbol s fun x => { x with target := some next? }) :=
  .of_modify (fun _ => rfl) h

theorem Remembers.addTable (tbl : MemberTable) : Remembers p (p.addTable tbl) := by
  refine ⟨rfl, rfl, fun _ => rfl, fun s => ?_⟩
  have hstep : (p.addTable tbl).aliasStep? (p.symbol s) = p.aliasStep? (p.symbol s) := by
    rw [← aliasStep?_frame, ← aliasStep?_frame p]
    rfl
  rw [nextOf, nextOf, ← hstep]
  rfl

end Program

namespace Query

open Program (Remembers)

variable {src : Source} {p : Program} {s : SymbolId}

theorem run_bind {α β : Type} (m : Query src [] α) (f : α → Query src [] β) :
    (m >>= f).run p = (f (m.run p).1).run (m.run p).2 := rfl

theorem run_read {α : Type} (f : Program → α) :
    (Query.read f : Query src [] α).run p = (f p, p) := rfl

theorem run_ite {α : Type} {c : Prop} [Decidable c] (m m' : Query src [] α) :
    (if c then m else m').run p = if c then m.run p else m'.run p := by
  split <;> rfl

theorem setMembersOnce_remembers (tbl : Program → MemberTable)
    (h : ∀ p, ∀ e ∈ (tbl p).entries, ∃ m, e ∈ (p.moduleInfo m).exports) :
    Remembers p ((setMembersOnce s tbl h : Query src [] Unit).run p).2 := by
  unfold setMembersOnce
  dsimp only
  split
  · exact .refl p
  · exact (Remembers.addTable _).trans (.setMembers _)

theorem ensureNamespace_remembers (m : ModuleId) :
    Remembers p ((ensureNamespace m : Query src [] Unit).run p).2 := by
  unfold ensureNamespace
  rw [run_bind, run_read]
  exact setMembersOnce_remembers _ _

/-- A step from an alias goes where the alias leads. -/
theorem stepAlias_run (s : SymbolId) (p : Program) : ∃ q, Remembers p q ∧
    (stepAlias s : Query src [] _).run p = (p.aliasStep? (p.symbol s), q) := by
  have hlast : ∀ q, Remembers p q →
      (q.aliasStep? (p.symbol s), q) = (p.aliasStep? (p.symbol s), q) := by
    intro q hq
    rw [← Program.aliasStep?_frame q, hq.frame, Program.aliasStep?_frame]
  unfold stepAlias
  rw [run_bind, run_read]
  dsimp only
  rw [run_ite]
  split
  · rw [run_bind, run_read]
    dsimp only
    cases p.resolve? (p.symbol s).file (p.symbol s).specifier with
    | none => exact ⟨p, .refl p, rfl⟩
    | some m =>
      have hq := @ensureNamespace_remembers src p m
      exact ⟨_, hq, hlast _ hq⟩
  · exact ⟨p, .refl p, rfl⟩

/-- Whatever is remembered by then, the rest of the way is the same. -/
theorem onward_run {fuel : Nat}
    (h : ∀ (s : SymbolId) (p : Program), ∃ q, Remembers p q ∧
      (followAlias fuel s : Query src [] _).run p = (p.aliasEndWithin fuel s, q))
    {p : Program} {s : SymbolId} (q : Program) (next? : Option SymbolId) (hq : Remembers p q)
    (hnext : next? = p.nextOf s) : ∃ r, Remembers p r ∧
      (match next? with
        | some next => (followAlias fuel next : Query src [] _)
        | none => pure none).run q = ((p.nextOf s).bind (p.aliasEndWithin fuel), r) := by
  subst hnext
  cases p.nextOf s with
  | none => exact ⟨q, hq, rfl⟩
  | some next =>
    obtain ⟨r, hr, hrun⟩ := h next q
    exact ⟨r, hq.trans hr, hrun.trans (by rw [hq.aliasEndWithin_eq]; rfl)⟩

theorem followAlias_run (fuel : Nat) : ∀ (s : SymbolId) (p : Program), ∃ q, Remembers p q ∧
    (followAlias fuel s : Query src [] _).run p = (p.aliasEndWithin fuel s, q) := by
  induction fuel with
  | zero => exact fun s p => ⟨p, .refl p, rfl⟩
  | succ fuel ih =>
    intro s p
    have hrest := @onward_run src fuel ih p s
    unfold followAlias Program.aliasEndWithin
    rw [run_bind, run_read]
    dsimp only
    rw [run_ite]
    cases halias : (p.symbol s).isAlias with
    | false => exact ⟨p, .refl p, rfl⟩
    | true =>
      rw [if_neg (by decide), if_pos rfl]
      cases htarget : (p.symbol s).target with
      | some known =>
        refine hrest p known (.refl p) ?_
        rw [Program.nextOf, htarget, Option.getD_some]
      | none =>
        obtain ⟨q, hq, hrun⟩ := @stepAlias_run src s p
        have hnext : p.aliasStep? (p.symbol s) = p.nextOf s := by
          rw [Program.nextOf, htarget, Option.getD_none]
        dsimp only
        rw [run_bind, hrun]
        exact hrest _ _ (hq.trans (.setTarget (hnext.trans (hq.next s).symm))) hnext

end Query

namespace Build

open Program (Remembers)

/-- **Following an alias only remembers, and ends where the alias ends.** -/
theorem resolveAlias_run (s : SymbolId) (p : Program) : ∃ q, Remembers p q ∧
    (resolveAlias s).run p = (p.aliasEnd s, q) :=
  Query.followAlias_run maxAliasSteps s p

end Build
end Moniker
