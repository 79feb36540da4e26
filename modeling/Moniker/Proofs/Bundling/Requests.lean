/-
# What a declaration needs

`requested p entry b imp` is what an import binding is found to ask for, and
`needs p entry decl` are the requests that are found in a declaration: the module-level
values that it uses and does not declare, in the order of their first use.  Both can be
told from the program alone (`requested_eq`, `needs_eq`), and so a bundle finds the same
whenever it looks (`requestFor_run`, `freeReferences_ensures`).

An import that is refused is no need.  It is kept and reported (`Remarks`), or ends a
strict bundle.
-/

import Moniker.Proofs.Bundling.Reports
import Moniker.Proofs.Bundling.Runs
import Moniker.Proofs.State
import Mathlib.Data.List.Nodup
import Mathlib.Logic.Relation

namespace Moniker

namespace Build

variable {p : Program}

theorem run_bind {α β : Type} (m : Build α) (f : α → Build β) :
    (m >>= f).run p = (f (m.run p).1).run (m.run p).2 := rfl

theorem run_read {α : Type} (f : Program → α) : (Build.read f).run p = (f p, p) := rfl

end Build

/-! ### What is not touched by remembering -/

namespace Program.Remembers

open Moniker.Bundle

variable {p q : Program} (h : Remembers p q)
include h

theorem reportAt_eq (code : Code) (message : String) (n : NodeId) :
    reportAt q code message n = reportAt p code message n := by
  unfold reportAt
  rw [h.source_eq]

theorem shapeOf?_eq (s : SymbolId) : shapeOf? q s = shapeOf? p s := by
  unfold shapeOf?
  simp only [h.source_eq, h.has_eq, h.decls_eq]

theorem declaredWithin_eq (s : SymbolId) (n : NodeId) :
    declaredWithin q s n = declaredWithin p s n := by
  unfold declaredWithin
  rw [h.source_eq, h.decls_eq]

theorem importOf?_eq (b : SymbolId) : importOf? q b = importOf? p b := by
  unfold importOf?
  rw [h.fileOf_eq, h.moduleOf_eq]

theorem usedSymbols_eq (decl : NodeId) : usedSymbols q decl = usedSymbols p decl := by
  unfold usedSymbols
  simp only [h.source_eq, h.referenced_eq, h.declaredWithin_eq]

theorem describe_eq (s : SymbolId) : Bundle.describe q s = Bundle.describe p s := by
  unfold Bundle.describe
  rw [h.name_eq, h.fileOf_eq, h.source_eq]

theorem cycle_eq (stack : List Frame) (r : Request) : cycle q stack r = cycle p stack r := by
  unfold cycle
  simp only [h.name_eq, h.reportAt_eq]

theorem stepBound_eq : stepBound q = stepBound p := by
  unfold stepBound
  rw [h.size, h.referenced_eq]

theorem addName_eq (s : State) (t : SymbolId) (name : String) (n : NodeId) :
    s.addName q t name n = s.addName p t name n := by
  unfold State.addName State.claim
  simp only [h.describe_eq, h.reportAt_eq]

theorem bind_eq (s : State) (r : Request) (sh : Shape) : s.bind q r sh = s.bind p r sh := by
  unfold State.bind State.introduce
  simp only [h.name_eq, h.addName_eq, h.source_eq, h.fileOf_eq]

theorem pop_eq (s : State) (top : Frame) (rest : List Frame) :
    s.pop q top rest = s.pop p top rest := h.bind_eq _ _ _

end Program.Remembers

namespace Bundle

open Program (Remembers)
open Relation (ReflTransGen)

variable {p q : Program} {entry : FileId} {s s' : State} {r : Request} {d : Diagnostic}

/-! ### What an import asks for -/

/-- What an import binding is found to ask for. -/
def requested (p : Program) (entry : FileId) (b : SymbolId) (imp : Import) :
    Except Diagnostic (Option Request) := (requestFor entry b imp).value p

/-- What an import binding asks for: the declaration that its alias ends at, unless that
is in the entry. -/
def bindingRequest (p : Program) (entry : FileId) (b : SymbolId) (imp : Import) :
    Except Diagnostic (Option Request) :=
  let sym := p.symbol b
  match sym.decls with
  | [] => .ok none
  | decl :: _ =>
    if imp.typeOnly then .ok none
    else if sym.has .namespaceImport then
      .error (reportAt p .unsupportedShape
        ("namespace import " ++ sym.name ++ " of " ++ Text.quote imp.specifier) decl)
    else if p.isExternal (p.source.fileOf decl) imp.specifier then
      .error (reportAt p .unsupportedShape
        ("import of " ++ sym.name ++ " from external module " ++ Text.quote imp.specifier) decl)
    else
      match p.aliasEnd b with
      | none =>
        .error (reportAt p .unresolvedSymbol
          (Text.quote imp.specifier ++ " does not export " ++ sym.importedName) decl)
      | some target =>
        if (p.symbol target).file == entry then .ok none else .ok (some ⟨sym.name, target, decl⟩)

theorem requestFor_resolves (h : p.Remembers q) (entry : FileId) (b : SymbolId) (imp : Import) :
    ∃ q', p.Remembers q' ∧ (requestFor entry b imp).run q = (bindingRequest p entry b imp, q') := by
  obtain ⟨q', hq', halias⟩ := Build.resolveAlias_run b q
  unfold requestFor bindingRequest
  change ∃ q', _ ∧ (match (q.symbol b).decls with | [] => _ | decl :: _ => _ : Build _).run q = _
  simp only [h.decls_eq, h.has_eq, h.name_eq, h.importedName_eq, h.source_eq, h.isExternal_eq,
    h.reportAt_eq]
  cases (p.symbol b).decls with
  | nil => exact ⟨q, h, rfl⟩
  | cons decl _ =>
    dsimp only
    split
    · exact ⟨q, h, rfl⟩
    split
    · exact ⟨q, h, rfl⟩
    split
    · exact ⟨q, h, rfl⟩
    refine ⟨q', h.trans hq', ?_⟩
    rw [Build.run_bind, halias, h.aliasEnd_eq]
    cases p.aliasEnd b with
    | none => rfl
    | some target =>
      dsimp only
      rw [Build.run_bind, Build.run_read, (h.trans hq').fileOf_eq]
      dsimp only
      split <;> rfl

theorem requested_eq (p : Program) (entry : FileId) (b : SymbolId) (imp : Import) :
    requested p entry b imp = bindingRequest p entry b imp := by
  obtain ⟨q', -, hrun⟩ := requestFor_resolves (.refl p) entry b imp
  exact congrArg Prod.fst hrun

/-- **What an import asks for does not depend on what is remembered.** -/
theorem requestFor_run (h : p.Remembers q) (entry : FileId) (b : SymbolId) (imp : Import) :
    ∃ q', p.Remembers q' ∧ (requestFor entry b imp).run q = (requested p entry b imp, q') := by
  rw [requested_eq]
  exact requestFor_resolves h entry b imp

theorem requested_minor {b : SymbolId} {imp : Import} (h : requested p entry b imp = .error d) :
    Minor d := by
  have hshape : ∀ message n, Minor (reportAt p .unsupportedShape message n) :=
    fun _ _ => ⟨nofun, nofun⟩
  have hsymbol : ∀ message n, Minor (reportAt p .unresolvedSymbol message n) :=
    fun _ _ => ⟨nofun, nofun⟩
  rw [requested_eq, bindingRequest] at h
  split at h
  · cases h
  split at h
  · cases h
  split at h
  · exact Except.error.inj h ▸ hshape _ _
  split at h
  · exact Except.error.inj h ▸ hshape _ _
  split at h
  · exact Except.error.inj h ▸ hsymbol _ _
  split at h <;> cases h

/-- What is imported is refused, or its alias ends at a declaration, which is in the entry or
asked for. -/
theorem requested_cases {b : SymbolId} {imp : Import} (hdecls : (p.symbol b).decls ≠ [])
    (htype : imp.typeOnly = false) : (∃ d, requested p entry b imp = .error d) ∨
      ∃ t, p.aliasEnd b = some t ∧ ((p.symbol t).file = entry ∨
        ∃ r, requested p entry b imp = .ok (some r) ∧
          r.localName = (p.symbol b).name ∧ r.target = t) := by
  rw [requested_eq, bindingRequest, htype]
  split
  · next hnil => exact absurd hnil hdecls
  rw [if_neg Bool.false_ne_true]
  split
  · exact .inl ⟨_, rfl⟩
  split
  · exact .inl ⟨_, rfl⟩
  split
  · exact .inl ⟨_, rfl⟩
  · next t halias =>
    refine .inr ⟨t, halias, ?_⟩
    split
    · next hfile => exact .inl (beq_iff_eq.mp hfile)
    · exact .inr ⟨_, rfl, rfl, rfl⟩

theorem requested_of_typeOnly {b : SymbolId} {imp : Import} (h : imp.typeOnly = true) :
    requested p entry b imp = .ok none := by
  rw [requested_eq, bindingRequest, h]
  split <;> rfl

/-! ### What a declaration asks for -/

/-- What the use of a symbol in a declaration asks for: nothing, if the symbol is neither
imported nor a value of the module. -/
def requestedBy (p : Program) (entry : FileId) (decl : NodeId) (use : SymbolId × NodeId) :
    Except Diagnostic (Option Request) :=
  let sym := p.symbol use.1
  let file := p.source.fileOf decl
  if sym.has .importBinding || sym.has .namespaceImport then
    match importOf? p use.1 with
    | none => .ok none
    | some imp =>
      (requested p entry use.1 imp).map fun r? => r?.map fun r => { r with cause := use.2 }
  else if sym.scope == some (p.moduleOf file).scope && file != entry then
    .ok (some ⟨sym.name, use.1, use.2⟩)
  else .ok none

/-- The requests that are found in a declaration. -/
def needs (p : Program) (entry : FileId) (decl : NodeId) : List Request :=
  match (((freeReferences entry false decl).run.run {}).value p).1 with
  | .ok deps => deps
  | .error _ => []

/-- A refused import is reported and kept. -/
inductive Remark (s : State) : State → Prop
  | warn {d : Diagnostic} (h : Minor d) : Remark s (s.warn d)
  | keep (line : String) : Remark s (s.keepImport line)

/-- Any number of remarks. -/
def Remarks (s s' : State) : Prop := ReflTransGen Remark s s'

theorem Remark.blemished (h : Remark s s') (hs : s.Blemished) : s'.Blemished := by
  cases h with
  | warn => exact State.blemished_warn.mpr (.inl hs)
  | keep => exact State.blemished_keepImport.mpr hs

theorem Remarks.blemished (h : Remarks s s') (hs : s.Blemished) : s'.Blemished := by
  induction h with
  | refl => exact hs
  | tail _ hstep ih => exact hstep.blemished ih

/-- Every refused import of a declaration has been reported. -/
def Reported (p : Program) (entry : FileId) (decl : NodeId) (s : State) : Prop :=
  ∀ use ∈ usedSymbols p decl, ∀ d, requestedBy p entry decl use = .error d → s.Blemished

/-- How looking up a request ends that comes to `e`: a refusal is reported, or ends a
strict bundle. -/
def Found (strict : Bool) (s : State) (e : Except Diagnostic (Option Request)) :
    Except Diagnostic (Option Request) → State → Prop
  | .ok r?, s' => Remarks s s' ∧ r? = e.toOption.join ∧ ∀ d, e = .error d → s'.Blemished
  | .error d, _ => strict = true ∧ Minor d

theorem requestOfUse_ensures (strict : Bool) (decl : NodeId) (use : SymbolId × NodeId) :
    Ensures p (requestOfUse entry strict decl use) s
      (Found strict s (requestedBy p entry decl use)) := by
  have hpure : ∀ r?, Ensures p (pure r? : BundleM _) s (Found strict s (.ok r?)) :=
    fun r? => .pure ⟨.refl, rfl, nofun⟩
  obtain ⟨u, n⟩ := use
  unfold requestOfUse requestedBy
  refine .program fun q hq => ?_
  dsimp only
  rw [hq.has_eq, hq.has_eq, hq.importOf?_eq, hq.scopeOf_eq, hq.moduleOf_eq, hq.source_eq,
    hq.name_eq]
  split
  · cases importOf? p u with
    | none => exact hpure none
    | some imp =>
      refine .answer (fun q hq => requestFor_run hq entry u imp) ?_
      dsimp only
      cases hr : requested p entry u imp with
      | ok r? =>
        cases r? with
        | none => exact hpure none
        | some r => exact hpure (some { r with cause := n })
      | error d =>
        have hminor := requested_minor hr
        cases strict with
        | true => exact .throw ⟨rfl, hminor⟩
        | false =>
          refine .warn (.change fun q _ => .pure ⟨?_, rfl, fun _ _ => ?_⟩)
          · exact (ReflTransGen.single (.warn hminor)).tail (.keep _)
          · exact State.blemished_keepImport.mpr (State.blemished_warn.mpr (.inr hminor.1))
  · split
    · exact hpure _
    · exact hpure none

theorem freeReferences_finds (strict : Bool) (decl : NodeId) :
    Ensures p (freeReferences entry strict decl) s
      (Ends (fun deps s' => Remarks s s' ∧
          deps = (usedSymbols p decl).filterMap (fun use =>
            (requestedBy p entry decl use).toOption.join) ∧ Reported p entry decl s')
        fun d _ => strict = true ∧ Minor d) := by
  unfold freeReferences
  refine .ofProgram fun q hq => ?_
  rw [hq.usedSymbols_eq]
  refine (Ensures.mapM (I := fun uses found s' => Remarks s s' ∧
      found = uses.map (fun use => (requestedBy p entry decl use).toOption.join) ∧
      ∀ use ∈ uses, ∀ d, requestedBy p entry decl use = .error d → s'.Blemished)
    (E := fun d _ => strict = true ∧ Minor d) ⟨.refl, rfl, nofun⟩ ?_).bind ?_ ?_
  · rintro uses found use s₁ ⟨hs₁, rfl, hreported⟩ -
    refine (requestOfUse_ensures strict decl use).mono fun r s₂ hr => ?_
    cases r with
    | error d => exact hr
    | ok r? =>
      obtain ⟨hs₂, rfl, hrefused⟩ := hr
      refine ⟨hs₁.trans hs₂, by rw [List.map_append]; rfl, fun u hu d hd => ?_⟩
      rcases List.mem_append.mp hu with hu | hu
      · exact hs₂.blemished (hreported u hu d hd)
      · rw [List.mem_singleton.mp hu] at hd
        exact hrefused d hd
  · rintro found s₁ ⟨hs₁, rfl, hreported⟩
    refine .pure ⟨hs₁, ?_, hreported⟩
    rw [List.filterMap_map]
    rfl
  · exact fun d s₁ h => h

/-- The needs of a declaration are what its uses ask for. A refused import is no need. -/
theorem needs_eq (p : Program) (entry : FileId) (decl : NodeId) : needs p entry decl =
    (usedSymbols p decl).filterMap fun use => (requestedBy p entry decl use).toOption.join := by
  obtain ⟨r, s', q', hrun, -, hr⟩ :=
    @freeReferences_finds p entry {} false decl p (.refl p)
  have hvalue : (((freeReferences entry false decl).run.run {}).value p).1 = r :=
    congrArg (fun x => x.1.1) hrun
  rw [needs, hvalue]
  cases r with
  | ok deps => exact hr.2.1
  | error d => cases hr.1

/-- **A bundle finds the needs of a declaration whenever it looks.** -/
theorem freeReferences_ensures (strict : Bool) (decl : NodeId) :
    Ensures p (freeReferences entry strict decl) s
      (Ends (fun deps s' => Remarks s s' ∧ deps = needs p entry decl ∧ Reported p entry decl s')
        fun d _ => strict = true ∧ Minor d) := by
  rw [needs_eq]
  exact freeReferences_finds strict decl

/-! ### How much a declaration can need -/

/-- A list of uses holds no symbol twice, and only what identifiers denote. -/
theorem usedSymbols_spec (p : Program) (decl : NodeId) :
    ((usedSymbols p decl).map Prod.fst).Nodup ∧
      ∀ use ∈ usedSymbols p decl, p.referenced[use.2]? = some use.1 := by
  refine foldl_keeps (I := fun acc : List (SymbolId × NodeId) =>
    (acc.map Prod.fst).Nodup ∧ ∀ use ∈ acc, p.referenced[use.2]? = some use.1) ?_ ⟨.nil, nofun⟩
  rintro ⟨t, n⟩ hmem acc ⟨hnodup, hacc⟩
  have hdenotes : p.referenced[n]? = some t := by
    obtain ⟨m, -, hm⟩ := List.mem_filterMap.mp hmem
    split at hm
    · cases hm
    · obtain ⟨u, hu, heq⟩ := Option.map_eq_some_iff.mp hm
      obtain ⟨rfl, rfl⟩ := Prod.mk.inj heq
      exact (Option.filter_eq_some_iff.mp hu).1
  split
  · exact ⟨hnodup, hacc⟩
  · next hnew =>
    have hnew : t ∉ acc.map Prod.fst := by
      intro h
      obtain ⟨use, huse, rfl⟩ := List.mem_map.mp h
      exact hnew (List.any_eq_true.mpr ⟨use, huse, beq_self_eq_true _⟩)
    constructor
    · rw [List.map_append]
      refine List.nodup_append.mpr ⟨hnodup, List.nodup_singleton _, fun a ha b hb h => hnew ?_⟩
      obtain rfl : a = t := h.trans (List.mem_singleton.mp hb)
      exact ha
    · intro use huse
      rcases List.mem_append.mp huse with huse | huse
      · exact hacc use huse
      · rw [List.mem_singleton.mp huse]
        exact hdenotes

/-- A declaration needs no more than identifiers denote. -/
theorem needs_length_le (p : Program) (entry : FileId) (decl : NodeId) :
    (needs p entry decl).length ≤ p.referenced.size := by
  obtain ⟨hnodup, hdenotes⟩ := usedSymbols_spec p decl
  -- Different symbols stand at different nodes.
  have hnodes : ((usedSymbols p decl).map Prod.snd).Nodup := by
    refine List.Nodup.map_on (fun x hx y hy h => ?_) (List.Nodup.of_map _ hnodup)
    have hx := hdenotes x hx
    rw [h, hdenotes y hy] at hx
    exact Prod.ext (Option.some.inj hx).symm h
  have hkeys : (usedSymbols p decl).map Prod.snd ⊆ p.referenced.keys := by
    intro n hn
    obtain ⟨use, huse, rfl⟩ := List.mem_map.mp hn
    rw [Std.TreeMap.mem_keys, Std.TreeMap.mem_iff_isSome_getElem?, hdenotes use huse]
    rfl
  rw [needs_eq]
  calc ((usedSymbols p decl).filterMap _).length
      ≤ (usedSymbols p decl).length := List.length_filterMap_le ..
    _ = ((usedSymbols p decl).map Prod.snd).length := (List.length_map _).symm
    _ ≤ p.referenced.keys.length := hnodes.length_le_of_subset hkeys
    _ = p.referenced.size := Std.TreeMap.length_keys

end Bundle
end Moniker
