/-
# Queries that keep the graph of types sound

`Query.Safe` says of a query at a program that it keeps the program `Sound` and what a
search for a signature sees of its types, and what is known of the value afterwards.  Here
are its rules for what queries are made of: first the control flow, then changes of types
and of what is remembered, then changes of symbols, and last the aliases.
-/

import Moniker.Program.Linking
import Moniker.Proofs.Labels
import Moniker.Proofs.Termination.Sound

namespace Moniker
namespace Query

open Program (Retains)
open Typing (Scene Settled Sound Memo)

variable {src : Source} {own : List LiteralShape} {c : Scene} {p : Program} {α β γ : Type}

/-- The query keeps the program sound and what is seen of its types, and `V` is known of the
value and the program after it. -/
def Safe (c : Scene) (p : Program) (V : Program → α → Prop) (m : Query src own α) : Prop :=
  Sound c p → Sound c (m.run p).2 ∧ p.Retains (m.run p).2 ∧ V (m.run p).2 (m.run p).1

/-- Nothing is known of the value. -/
def anything (_ : Program) (_ : α) : Prop := True

/-- The type is new: it was not there before, and nothing has changed it. -/
structure New (c : Scene) (info : TypeInfo) (p q : Program) (t : TypeId) : Prop where
  size_le : p.types.size ≤ t.idx
  seen : c.Sees q t
  typeInfo_eq : q.typeInfo t = info

namespace New

variable {info : TypeInfo} {q r : Program} {t : TypeId}

theorem kind_eq (h : New c info p q t) (hqr : q.Retains r) : (r.typeInfo t).kind = info.kind :=
  (hqr.types t h.seen.1).kind.trans (congrArg TypeInfo.kind h.typeInfo_eq)

theorem sees (h : New c info p q t) (hqr : q.Retains r) : c.Sees r t := h.seen.retained hqr

end New

namespace Safe

variable {V : Program → α → Prop} {W : Program → β → Prop} {m : Query src own α}
  {f : α → Query src own β} {t : TypeId}

/-! ### Control flow -/

theorem pure {a : α} (h : V p a) : Safe c p V (Pure.pure a : Query src own α) :=
  fun hp => ⟨hp, .refl p, h⟩

theorem bind (hm : Safe c p V m) (hf : ∀ q a, p.Retains q → V q a → Safe c q W (f a)) :
    Safe c p W (m >>= f) := by
  intro hp
  obtain ⟨hq, hpq, ha⟩ := hm hp
  obtain ⟨hr, hqr, hb⟩ := hf _ _ hpq ha hq
  exact ⟨hr, hpq.trans hqr, hb⟩

theorem read {g : Program → α} (h : Sound c p → V p (g p)) :
    Safe c p V (Query.read g : Query src own α) := fun hp => ⟨hp, .refl p, h hp⟩

/-- What is read is read off the program as it stands. -/
theorem read_bind {g : Program → α} (h : Sound c p → Safe c p W (f (g p))) :
    Safe c p W (Query.read g >>= f) := fun hp => h hp hp

theorem imp {V' : Program → α → Prop} (hm : Safe c p V m) (h : ∀ q a, V q a → V' q a) :
    Safe c p V' m := by
  intro hp
  obtain ⟨hq, hpq, ha⟩ := hm hp
  exact ⟨hq, hpq, h _ _ ha⟩

theorem some {m : Query src own TypeId} (hm : Safe c p c.Sees m) :
    Safe c p c.SeesAll (do return Option.some (← m)) :=
  bind hm fun _ _ _ ht => .pure (Scene.seesAll_some ht)

theorem lift {m : Query src [] α} (hm : Safe c p V m) :
    Safe c p V (MonadLift.monadLift m : Query src own α) := hm

theorem mapM {g : γ → Query src own α} {xs : List γ}
    (hV : ∀ q r a, q.Retains r → V q a → V r a)
    (h : ∀ x q, p.Retains q → Safe c q V (g x)) :
    Safe c p (fun q as => ∀ a ∈ as, V q a) (xs.mapM g) := by
  induction xs generalizing p with
  | nil => exact .pure fun _ ha => nomatch ha
  | cons x xs ih =>
    rw [List.mapM_cons]
    refine bind (h x p (.refl p)) fun q a hpq ha => ?_
    exact bind (ih fun y r hqr => h y r (hpq.trans hqr)) fun r as hqr has =>
      .pure (List.forall_mem_cons.mpr ⟨hV q r a hqr ha, has⟩)

theorem mapM_sees {g : γ → Query src own TypeId} {xs : List γ}
    (h : ∀ x q, p.Retains q → Safe c q c.Sees (g x)) : Safe c p c.SeesAll (xs.mapM g) :=
  mapM (fun _ _ _ hqr ht => ht.retained hqr) h

theorem mapM_results {g : γ → Query src own Signature} {xs : List γ}
    (h : ∀ x q, p.Retains q → Safe c q c.SeesResult (g x)) : Safe c p c.SeesResults (xs.mapM g) :=
  mapM (fun _ _ _ hqr ht => ht.retained hqr) h

theorem forM {g : γ → Query src own PUnit} {xs : List γ}
    (h : ∀ x q, p.Retains q → Safe c q anything (g x)) : Safe c p anything (xs.forM g) := by
  induction xs generalizing p with
  | nil => exact .pure trivial
  | cons x xs ih =>
    exact bind (h x p (.refl p)) fun q _ hpq _ => ih fun y r hqr => h y r (hpq.trans hqr)

theorem foldlM {g : α → γ → Query src own α} {xs : List γ} {a : α}
    (h : ∀ q a x, V q a → Safe c q V (g a x)) (ha : V p a) : Safe c p V (xs.foldlM g a) := by
  induction xs generalizing p a with
  | nil => exact .pure ha
  | cons x xs ih =>
    rw [List.foldlM_cons]
    exact bind (h p a x ha) fun q b _ hb => ih hb

/-! ### Types -/

theorem newType {info : TypeInfo} (h : Sound c p → info.Within (c.Sees p))
    (hcomposed : Sound c p → (info.kind == .union || info.kind == .intersection) = true →
      p.Composes info) : Safe c p (New c info p) (Query.newType info : Query src own TypeId) := by
  intro hp
  have hsize : p.types.size < (p.types.push info).size := by simp
  exact ⟨hp.push (h hp) (hcomposed hp) fun _ => .inl, Sound.retains_push, le_rfl,
    ⟨hsize, fun hmem => absurd (hp.building _ hmem) (Nat.lt_irrefl _)⟩,
    (Sound.typeInfo_push ⟨p.types.size⟩).trans (if_pos rfl)⟩

theorem updateType {g : TypeInfo → TypeInfo} (h : Sound c p →
      (g (p.typeInfo t)).Within (c.Sees p) ∧ (p.typeInfo t).Retains (g (p.typeInfo t)) ∧
        (g (p.typeInfo t)).parts = (p.typeInfo t).parts) :
    Safe c p anything (Query.updateType t g : Query src own Unit) := by
  intro hp
  obtain ⟨hwithin, hretains, hparts⟩ := h hp
  exact ⟨hp.modify_retained hwithin hretains hparts, Sound.retains_modify hretains, trivial⟩

/-- A change of what neither a value nor a search for a signature is taken from, and that is not
extended. -/
theorem updateType_aside {g : TypeInfo → TypeInfo}
    (h : ∀ x : TypeInfo, (g x).kind = x.kind ∧ (g x).parts = x.parts ∧ (g x).bases = x.bases ∧
      (g x).typeArgs = x.typeArgs ∧ (g x).signatures = x.signatures ∧
      (g x).instance? = x.instance? ∧ (g x).constraint = x.constraint)
    (halias : ∀ x : TypeInfo, x.alias? ≠ none → (g x).alias? ≠ none) :
    Safe c p anything (Query.updateType t g : Query src own Unit) := by
  refine updateType fun hp => ?_
  obtain ⟨hkind, hparts, hbases, hargs, hsignatures, hinstance, hconstraint⟩ := h (p.typeInfo t)
  obtain ⟨hp₁, hp₂, hp₃, hp₄, hp₅⟩ := hp.infos t
  refine ⟨⟨?_, ?_, ?_, ?_, ?_⟩,
    ⟨hkind, halias _, fun _ _ => ⟨hsignatures, hparts, hconstraint, hargs⟩⟩, hparts⟩
  · rwa [hparts]
  · rwa [hbases]
  · rwa [hargs]
  · rwa [hsignatures]
  · rwa [hinstance]

theorem addBase {base : TypeId} (hbase : c.Sees p base) : Safe c p anything
    (Query.updateType t fun info => { info with bases := info.bases ++ [base] } :
      Query src own Unit) := by
  refine updateType fun hp => ?_
  obtain ⟨hparts, hbases, hargs, hresults, hinstance⟩ := hp.infos t
  refine ⟨⟨hparts, fun u hu => ?_, hargs, hresults, hinstance⟩,
    ⟨rfl, id, fun _ _ => ⟨rfl, rfl, rfl, rfl⟩⟩, rfl⟩
  rcases List.mem_append.mp hu with hu | hu
  · exact hbases u hu
  · rwa [List.mem_singleton.mp hu]

theorem setSignatures {sigs : List Signature} (hkind : (p.typeInfo t).kind = .object)
    (hsigs : c.SeesResults p sigs) : Safe c p anything
    (Query.updateType t fun info => { info with signatures := sigs } : Query src own Unit) :=
  updateType fun hp => ⟨⟨(hp.infos t).parts, (hp.infos t).bases, (hp.infos t).typeArgs, hsigs,
    (hp.infos t).instance?⟩, .of_object hkind rfl rfl, rfl⟩

theorem setInstance {inst : TypeId} (hinst : c.Sees p inst) : Safe c p anything
    (Query.updateType t fun info => { info with instance? := Option.some inst } :
      Query src own Unit) :=
  updateType fun hp => ⟨⟨(hp.infos t).parts, (hp.infos t).bases, (hp.infos t).typeArgs,
    (hp.infos t).results, Scene.seesAll_some hinst⟩, ⟨rfl, id, fun _ _ => ⟨rfl, rfl, rfl, rfl⟩⟩, rfl⟩

/-- An array is hidden while its elements are worked out, and has them when it is shown. -/
theorem newArray {name : String} {elements : Query src own α} {parts : α → List TypeId}
    (h : ∀ t q, p.Retains q → p.types.size ≤ t.idx →
      Safe (c.hide t) q (fun r a => (c.hide t).SeesAll r (parts a)) elements) :
    Safe c p c.SeesAll (do
      let t ← Query.newType { kind := .array, name := name }
      let a ← elements
      Query.updateType t fun info => { info with parts := parts a }
      return Option.some t) := by
  intro hp
  let t : TypeId := ⟨p.types.size⟩
  let q : Program := { p with types := p.types.push { kind := .array, name := name } }
  have hpushed : Sound (c.hide t) q := by
    refine hp.push ⟨nofun, nofun, nofun, nofun, nofun⟩ nofun fun u hu => ?_
    rcases List.mem_cons.mp hu with rfl | hu
    · exact .inr rfl
    · exact .inl hu
  have hsafe : Safe c p (New c { kind := .array, name := name } p)
      (Query.newType { kind := .array, name := name } : Query src own TypeId) :=
    newType (fun _ => ⟨nofun, nofun, nofun, nofun, nofun⟩) fun _ => nofun
  obtain ⟨-, hpq, hnew⟩ := hsafe hp
  obtain ⟨hr, hqr, helements⟩ := h t q hpq le_rfl hpushed
  have hkind := hnew.kind_eq hqr
  have hlast := Sound.retains_modify (f := fun info => { info with parts := parts (elements.run q).1 })
    (.of_array hkind rfl rfl)
  exact ⟨hr.setElements hkind helements, (hpq.trans hqr).trans hlast,
    Scene.seesAll_some (hnew.sees (hqr.trans hlast))⟩

/-! ### Memory -/

theorem learn {g : Program → Program} {hfacts : ∀ p, (g p).facts = p.facts} (x : Memo)
    (heq : g p = p.remember t x) (ht : c.Sees p t) :
    Safe c p anything (Query.learn g hfacts : Query src own Unit) := by
  intro hp
  change Sound c (g p) ∧ p.Retains (g p) ∧ True
  rw [heq]
  refine ⟨hp.remember ht, .of_types_eq ?_, trivial⟩
  rcases x with (_ | _ | _ | _ | _) | _ | _ <;> rfl

theorem of_memory (hm : (m.run p).2.memory = p.memory) (hsource : (m.run p).2.source = p.source)
    (hsettled : Settled c p → Settled c (m.run p).2)
    (hreferenced : (m.run p).2.referenced = p.referenced) (hmarks : (m.run p).2.marks = p.marks) :
    Safe c p anything m := by
  refine fun hp => ⟨hp.of_memory hm hsource (hsettled hp.toSettled) hreferenced hmarks,
    .of_types_eq ?_, trivial⟩
  exact show (m.run p).2.memory.types = p.memory.types by rw [hm]

end Safe

/-! ### What rules are made of -/

theorem intrinsic_safe (name : String) : Safe c p c.Sees (intrinsic name : Query src own TypeId) := by
  refine .read_bind fun hp => ?_
  split
  · next t ht => exact .pure (hp.memos (.intrinsic name) t ht)
  · refine .bind (.newType (fun _ => ⟨nofun, nofun, nofun, nofun, nofun⟩) fun _ => nofun)
      fun q t _ ht => ?_
    exact .bind (.learn (.intrinsic name) rfl ht.seen) fun _ _ hqr _ => .pure (ht.sees hqr)

theorem unknown_safe : Safe c p c.Sees (unknown : Query src own TypeId) := intrinsic_safe _

theorem objectType_safe (symbol : Option SymbolId) (members : Option TableId) :
    Safe c p (New c { kind := .object, symbol := symbol, members := members } p)
      (objectType symbol members : Query src own TypeId) :=
  .newType (fun _ => ⟨nofun, nofun, nofun, nofun, nofun⟩) fun _ => nofun

theorem foreign_safe (label : String) {args : List TypeId} (hargs : c.SeesAll p args) :
    Safe c p c.Sees (foreign label args : Query src own TypeId) :=
  .imp (.newType (fun _ => ⟨nofun, nofun, hargs, nofun, nofun⟩) fun _ => nofun) fun _ _ ht => ht.seen

/-- The parts of the parts of a composite are seen. -/
theorem seesAll_flattenParts {kind : TypeKind} {parts : List TypeId} (hp : Sound c p)
    (hparts : c.SeesAll p parts) : c.SeesAll p (p.flattenParts kind parts) := by
  intro u hu
  obtain ⟨t, ht, hu⟩ := List.mem_flatMap.mp (List.mem_eraseDups.mp hu)
  dsimp only at hu
  split at hu
  · exact (hp.infos t).parts u hu
  · rw [List.mem_singleton.mp hu]
    exact hparts t ht

/-- No part of a flattened composite is of its own kind and has no name, because the parts of such
a part have been put in its place. -/
theorem named_of_mem_flattenParts {kind : TypeKind} {parts : List TypeId} {u : TypeId}
    (hp : Sound c p) (hkind : (kind == .union || kind == .intersection) = true)
    (hu : u ∈ p.flattenParts kind parts) (hsame : (p.typeInfo u).kind = kind) :
    (p.typeInfo u).alias? ≠ none := by
  obtain ⟨t, -, hu⟩ := List.mem_flatMap.mp (List.mem_eraseDups.mp hu)
  dsimp only at hu
  split at hu
  · next hopen =>
    have htkind : (p.typeInfo t).kind = kind := eq_of_beq (Bool.and_eq_true_iff.mp hopen).1
    rw [← htkind] at hkind hsame
    exact (hp.composed t hkind).named u hu hsame
  · next hclosed =>
    obtain rfl := List.mem_singleton.mp hu
    rw [hsame, beq_self_eq_true, Bool.true_and, Option.isNone_iff_eq_none] at hclosed
    exact hclosed

/-- What is put together from two parts or more is a composite as it should be. -/
theorem composes_flattenParts {kind : TypeKind} {parts : List TypeId} (hp : Sound c p)
    (hnil : p.flattenParts kind parts ≠ []) (hone : ∀ t, p.flattenParts kind parts ≠ [t])
    (hkind : (kind == .union || kind == .intersection) = true) :
    p.Composes { kind := kind, parts := p.flattenParts kind parts } where
  nodup := nodup_eraseDups _
  many := by
    cases hflat : p.flattenParts kind parts with
    | nil => exact absurd hflat hnil
    | cons t ts =>
      cases ts with
      | nil => exact absurd hflat (hone t)
      | cons u us => exact .inl (Nat.le_add_left 2 us.length)
  named _ hu hsame := named_of_mem_flattenParts hp hkind hu hsame

theorem composite_safe (kind : TypeKind) {parts : List TypeId} (hparts : c.SeesAll p parts) :
    Safe c p c.Sees (composite kind parts : Query src own TypeId) := by
  refine .read_bind fun hp => ?_
  have hflat : c.SeesAll p (p.flattenParts kind parts) := seesAll_flattenParts hp hparts
  split
  · exact unknown_safe
  · next t heq => exact .pure (hflat t (by rw [heq]; exact List.mem_singleton_self t))
  · next hnil hone =>
    exact .imp (.newType (fun _ => ⟨hflat, nofun, nofun, nofun, nofun⟩) fun hp =>
      composes_flattenParts hp hnil hone) fun _ _ ht => ht.seen

theorem elementType_safe (t : TypeId) (index : Option Nat) :
    Safe c p c.Sees (elementType t index : Query src own TypeId) := by
  refine .read_bind fun hp => ?_
  have hparts := (hp.infos t).parts
  have hargs := (hp.infos t).typeArgs
  split
  · next element _ heq => exact .pure (hparts element (by rw [heq]; exact List.mem_singleton_self _))
  · next first rest _ _ heq =>
    rw [heq] at hparts
    split
    · next element hindex =>
      obtain ⟨i, -, hi⟩ := Option.bind_eq_some_iff.mp hindex
      exact .pure (hparts element (List.mem_of_getElem? hi))
    · exact composite_safe _ hparts
  · split
    · next arg heq =>
      split
      · exact .pure (hargs arg (by rw [heq]; exact List.mem_singleton_self arg))
      · exact unknown_safe
    · exact unknown_safe
  · exact unknown_safe

/-- A search may run on where there is a circle. -/
theorem runOn_safe (h : ∃ t, p.Circles t) : Safe c p anything (runOn : Query src own Unit) :=
  fun hp => ⟨⟨hp.toSettled.congr rfl rfl, hp.nodes_le, hp.referenced, hp.pending, hp.building,
    hp.infos, hp.layered, hp.acyclic, fun t ht => (hp.composed t ht).retained
      (fun u hu => ((hp.infos t).parts u hu).1) (.of_types_eq rfl),
    fun x t ht => hp.memos x t ((Program.recalled?_aside x).symm.trans ht), hp.cut, fun _ => h⟩,
    .of_types_eq rfl, trivial⟩

/-- What the search for a signature finds is the signature of a type. -/
theorem exists_of_searchSignature {t : TypeId} {sig : Signature}
    (h : p.searchSignature t = some (some sig)) : ∃ u, sig ∈ (p.typeInfo u).signatures := by
  refine Program.searchSignature.partial_correctness p
    (fun _ r => ∀ sig ∈ r, ∃ u, sig ∈ (p.typeInfo u).signatures) ?_ t (some sig) h sig rfl
  intro search ih t r hr sig hsig
  split at hr
  · next first rest hsignatures =>
    rw [← Option.some.inj hr] at hsig
    obtain rfl := Option.some.inj hsig
    exact ⟨t, by rw [hsignatures]; exact List.mem_cons_self⟩
  · obtain ⟨u, hu⟩ := Program.exists_of_findSomeM?_eq_some_some (hr.trans (congrArg some hsig))
    exact ih u (some sig) hu sig rfl

/-- **The search for a signature has an end unless it meets a circle.** -/
theorem firstSignature?_safe (t? : Option TypeId) :
    Safe c p c.SeesResults (firstSignature? t? : Query src own (Option Signature)) := by
  cases t? with
  | none => exact .pure nofun
  | some t =>
    refine .read_bind fun hp => ?_
    split
    · next sig? hfound =>
      refine .pure fun sig hsig => ?_
      obtain rfl := Option.mem_def.mp hsig
      obtain ⟨u, hu⟩ := exists_of_searchSignature hfound
      exact (hp.infos u).results sig hu
    · next hendless =>
      obtain ⟨u, -, hcircle⟩ := Program.exists_circles hendless
      exact .bind (runOn_safe ⟨u, hcircle⟩) fun _ _ _ _ => .pure nofun

/-! ### Symbols -/

theorem newSymbol_safe {sym : Symbol} (h : sym.scope = none)
    (hfresh : sym.traits.meets Traits.leading = false) (htarget : sym.target = none) :
    Safe c p anything (newSymbol sym h : Query src own SymbolId) :=
  .of_memory rfl rfl (fun hp => hp.addSymbol hfresh htarget) rfl rfl

/-- Members have nothing to do with where a symbol leads. -/
theorem settled_setMembers {tbl : MemberTable} (hp : Settled c p) (s : SymbolId) (t : TableId) :
    Settled c ((p.addTable tbl).modifySymbol s fun x => { x with members := some t }) := by
  have hadded : Settled c (p.addTable tbl) := hp.congr rfl rfl
  exact hadded.modifySymbol s (fun _ => rfl) (fun _ => rfl) (fun _ _ => rfl) (hadded.targets s)

theorem setMembersOnce_safe (s : SymbolId) (tbl : Program → MemberTable)
    (h : ∀ p, ∀ e ∈ (tbl p).entries, ∃ m, e ∈ (p.moduleInfo m).exports) :
    Safe c p anything (setMembersOnce s tbl h : Query src own Unit) := by
  unfold setMembersOnce
  cases hmembers : (p.symbol s).members.isSome with
  | true =>
    intro hp
    dsimp only
    rw [if_pos hmembers]
    exact ⟨hp, .refl p, trivial⟩
  | false =>
    intro hp
    dsimp only
    rw [if_neg (by rw [hmembers]; exact Bool.false_ne_true)]
    exact ⟨hp.of_memory rfl rfl (settled_setMembers hp.toSettled s _) rfl rfl, .of_types_eq rfl,
      trivial⟩

/-- What is remembered of an alias is where it leads. -/
theorem setTarget_safe (s : SymbolId) {next? : Option SymbolId}
    (h : next? = p.aliasStep? (p.symbol s)) :
    Safe c p anything (setTarget s next? : Query src own Unit) :=
  .of_memory rfl rfl (fun hp => hp.modifySymbol s (fun _ => rfl) (fun _ => rfl) (fun _ _ => rfl)
    fun _ heq => (Option.some.inj heq).symm.trans h) rfl rfl

theorem setShapeAt_safe (n : NodeId) (s : SymbolId) :
    Safe c p anything (setShapeAt n s : Query src own Unit) :=
  .of_memory rfl rfl (fun hp => hp.congr rfl rfl) rfl rfl

theorem addEffect_safe (n : NodeId) : Safe c p anything (addEffect n : Query src own Unit) :=
  .of_memory rfl rfl (fun hp => hp.congr rfl rfl) rfl rfl

theorem withShape_safe {V : Program → α → Prop} {shape : Symbol} {h : shape.scope = none}
    {hliteral : shape.isObjectLiteral = true} (hfresh : shape.traits.meets Traits.leading = false)
    (htarget : shape.target = none)
    {body : (o : LiteralShape) → Query src (o :: own) α}
    (hbody : ∀ q o, p.Retains q → Safe c q V (body o)) :
    Safe c p V (withShape shape body h hliteral) := by
  intro hp
  let q := (p.addTable {}).addSymbol { shape with members := some ⟨p.tables.size⟩ }
  have hpq : p.Retains q := .of_types_eq rfl
  have hadded : Settled c (p.addTable {}) := hp.toSettled.congr rfl rfl
  have hq : Sound c q := hp.of_memory rfl rfl (hadded.addSymbol hfresh htarget) rfl rfl
  obtain ⟨hr, hqr, ha⟩ := hbody q ⟨⟨p.symbols.size⟩, ⟨p.tables.size⟩⟩ hpq hq
  exact ⟨hr, hpq.trans hqr, ha⟩

/-! ### Aliases -/

theorem ensureNamespace_safe (m : ModuleId) :
    Safe c p anything (ensureNamespace m : Query src [] Unit) :=
  .read_bind fun _ => setMembersOnce_safe _ _ _

/-- A step from an alias goes where the alias leads. -/
theorem stepAlias_safe (s : SymbolId) :
    Safe c p (fun q next? => next? = q.aliasStep? (q.symbol s))
      (stepAlias s : Query src [] (Option SymbolId)) := by
  have hsafe : Safe c p anything (stepAlias s : Query src [] (Option SymbolId)) := by
    refine .read_bind fun _ => ?_
    dsimp only
    split
    · refine .read_bind fun _ => ?_
      split
      · exact .bind (ensureNamespace_safe _) fun _ _ _ _ => .read fun _ => trivial
      · exact .read fun _ => trivial
    · exact .read fun _ => trivial
  intro hp
  obtain ⟨hq, hpq, -⟩ := hsafe hp
  obtain ⟨q, hremembers, hrun⟩ := @stepAlias_run src s p
  have hstep : q.aliasStep? (q.symbol s) = p.aliasStep? (p.symbol s) := by
    rw [Program.aliasStep?_of_bare (hremembers.bare s), Program.aliasStep?_congr hremembers.frame]
  rw [hrun] at hq hpq ⊢
  exact ⟨hq, hpq, hstep.symm⟩

/-- The rest of the way after a step from an alias. -/
theorem onward_safe {follow : SymbolId → Query src [] (Option SymbolId)}
    (h : ∀ p s, Safe c p anything (follow s)) (next? : Option SymbolId) :
    Safe c p anything (match next? with
      | some next => follow next
      | none => Pure.pure none) := by
  cases next? with
  | none => exact .pure trivial
  | some next => exact h p next

theorem followAlias_safe (fuel : Nat) (p : Program) (s : SymbolId) :
    Safe c p anything (followAlias fuel s : Query src [] (Option SymbolId)) := by
  induction fuel generalizing p s with
  | zero => exact .pure trivial
  | succ fuel ih =>
    have hrest := fun p next? => @onward_safe src c p _ ih next?
    refine .read_bind fun _ => ?_
    split
    · exact .pure trivial
    · dsimp only
      split
      · exact hrest _ _
      · exact .bind (stepAlias_safe s) fun _ _ _ hnext => .bind (setTarget_safe s hnext)
          fun _ _ _ _ => hrest _ _

theorem resolveAlias_safe (s : SymbolId) :
    Safe c p anything (resolveAlias s : Query src [] (Option SymbolId)) := followAlias_safe _ _ _

end Query
end Moniker
