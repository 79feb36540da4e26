/-
# Members of the parts of a union

The search for a property goes through the parts of a union one after another.  It finds
the property if a part has it, and it ends with the first symbol it comes to
(`Program.exists_offers_of_property?`), so an access to a member is an occurrence of the
member of one part alone (`Program.Exact.eq_of_mem_occurrences`).

Nothing ties the members that the other parts have under the name to that one.  Each is
a candidate of its own, and no two candidates get one name.  So the members of a union
stay together only if they are one symbol or all of them keep their name
(`DividesUnions`).
-/

import Moniker.Proofs.Lookup
import Moniker.Proofs.Plans

namespace Moniker

open Program (Later)

namespace Program

variable {p q : Program} {t u : TypeId} {m m' : SymbolId} {n : NodeId} {name : String}

/-- The type leads to one that has the symbol under the name itself. -/
def Offers (p : Program) (t : TypeId) (name : String) (m : SymbolId) : Prop :=
  ∃ u, Relation.ReflTransGen (fun x y => y ∈ propertyEdges (p.typeInfo x)) t u ∧
    p.ownProperty? (p.typeInfo u) name = some m

/-- A search through a list that finds something finds it from a type of the list. -/
theorem exists_mem_of_foldl
    {step : Option SymbolId × List TypeId → TypeId → Option SymbolId × List TypeId}
    (hfound : ∀ m seen t, step (some m, seen) t = (some m, seen)) :
    ∀ (ts : List TypeId) {seen : List TypeId}, (ts.foldl step (none, seen)).1 = some m →
      ∃ t ∈ ts, ∃ seen, (step (none, seen) t).1 = some m := by
  intro ts
  induction ts with
  | nil => exact fun h => nomatch h
  | cons t ts ih =>
    intro seen h
    rw [List.foldl_cons] at h
    obtain ⟨found, seen', hstep⟩ : ∃ found seen', step (none, seen) t = (found, seen') :=
      ⟨_, _, rfl⟩
    rw [hstep] at h
    cases found with
    | some m' =>
      rw [foldl_found hfound] at h
      exact ⟨t, List.mem_cons_self, seen, by rw [hstep]; exact h⟩
    | none =>
      obtain ⟨u, hu, hfrom⟩ := ih h
      exact ⟨u, List.mem_cons_of_mem _ hu, hfrom⟩

/-- **What a search finds is offered by the type it starts from.** -/
theorem offers_of_propertyWithin (fuel : Nat) : ∀ (t : TypeId) {seen : List TypeId},
    (p.propertyWithin name fuel t seen).1 = some m → p.Offers t name m := by
  induction fuel with
  | zero =>
    intro t seen h
    simp [propertyWithin] at h
  | succ fuel ih =>
    intro t seen h
    unfold propertyWithin at h
    split at h
    · simp at h
    · dsimp only at h
      split at h
      · next hown => exact ⟨t, .refl, hown.trans h⟩
      · obtain ⟨c, hc, seen', hfound⟩ := exists_mem_of_foldl (fun _ _ _ => rfl) _ h
        obtain ⟨u, hreach, hown⟩ := ih c hfound
        exact ⟨u, hreach.head hc, hown⟩

theorem isSome_property?_of_offers (h : p.Offers t name m) :
    (p.property? t name).isSome = true := by
  obtain ⟨u, hreach, hown⟩ := h
  exact isSome_property? (by rw [hown]; rfl) hreach

/-- A type leads on to what it offers, unless it has that itself. -/
theorem Offers.of_part (hkind : (p.typeInfo t).kind = .union) (h : p.Offers t name m) :
    ∃ c ∈ (p.typeInfo t).parts, p.Offers c name m := by
  obtain ⟨u, hreach, hown⟩ := h
  rcases Relation.ReflTransGen.cases_head hreach with rfl | ⟨c, hc, hreach⟩
  · rw [ownProperty?, hkind] at hown
    exact nomatch hown
  · rw [propertyEdges, hkind] at hc
    exact ⟨c, hc, u, hreach, hown⟩

/-- **What is found in a union is offered by one of its parts.** -/
theorem exists_offers_of_property? (hkind : (p.typeInfo t).kind = .union)
    (h : p.property? t name = some m) : ∃ c ∈ (p.typeInfo t).parts, p.Offers c name m :=
  (offers_of_propertyWithin _ t h).of_part hkind

/-- A union has a property if one of its parts has. -/
theorem isSome_property?_union (hkind : (p.typeInfo t).kind = .union) :
    (p.property? t name).isSome = true ↔
      ∃ c ∈ (p.typeInfo t).parts, (p.property? c name).isSome = true := by
  constructor
  · intro h
    obtain ⟨m, hm⟩ := Option.isSome_iff_exists.mp h
    obtain ⟨c, hc, hoffers⟩ := exists_offers_of_property? hkind hm
    exact ⟨c, hc, isSome_property?_of_offers hoffers⟩
  · rintro ⟨c, hc, h⟩
    obtain ⟨m, hm⟩ := Option.isSome_iff_exists.mp h
    obtain ⟨u, hreach, hown⟩ := offers_of_propertyWithin _ c hm
    refine isSome_property?_of_offers ⟨u, hreach.head ?_, hown⟩
    rw [propertyEdges, hkind]
    exact hc

/-- **An access is an occurrence of one member alone.** -/
theorem Exact.eq_of_mem_occurrences (h : p.Exact) (hm : n ∈ p.occurrences m)
    (hm' : n ∈ p.occurrences m') (hdecl : n ∉ (p.symbol m).decls) (hdecl' : n ∉ (p.symbol m').decls)
    (hname : p.referenced[n]? = none) : m = m' := by
  have hlinked : ∀ {s}, n ∈ p.occurrences s → n ∉ (p.symbol s).decls → p.memberAt[n]? = some s := by
    intro s hs hdecl
    have huse := ((mem_occurrences h).mp hs).resolve_left hdecl
    rw [hname] at huse
    exact huse.resolve_left (nomatch ·)
  exact Option.some.inj ((hlinked hm hdecl).symm.trans (hlinked hm' hdecl'))

/-- The symbol is found under the name from a part of the type. -/
def FoundOnPart (p : Program) (t : TypeId) (name : String) (m : SymbolId) : Prop :=
  ∃ c ∈ (p.typeInfo t).parts, p.property? c name = some m

/-- The symbol is called by the name and is not hard-private. -/
structure CalledBy (p : Program) (m : SymbolId) (name : String) : Prop where
  lt_size : m.idx < p.symbols.size
  name : (p.symbol m).name = name
  soft : (p.symbol m).has .hardPrivate = false

end Program

namespace ManglePlan

variable {p : Program} {plan : ManglePlan} {files : List FileId} {opts : MangleOptions}
  {s m m' : SymbolId} {name : String} {r : Renaming}

/-- The symbol gets a name that it did not have. -/
def Changes (plan : ManglePlan) (p : Program) (s : SymbolId) : Prop :=
  plan.finalName p s ≠ (p.symbol s).name

theorem Changes.renames (h : plan.Changes p s) : plan.Renames s := by
  by_contra hstays
  exact h (finalName_of_not_renames hstays)

/-- Only hard-private symbols get names of a hard-private domain. -/
theorem isHardPrivate_domain (hw : WellScoped p) (hs : p.source.LaidOut)
    (hsel : ∀ f ∈ files, f ∈ p.source.fileIds)
    (hr : r ∈ ((planMangle files opts).value p).renamings)
    (hm : p.CalledBy r.symbol name) : Allocator.isHardPrivate r.domain = false := by
  obtain ⟨e, he, hsymbol, _, hdomain⟩ := (settled_planMangle opts hw hs hsel).2 r hr
  obtain ⟨f, _, q, hq, hrec, _⟩ := entry_of_mem (Analysis.visibility_of_mem_candidates he).1
  have hsoft : (q.symbol e.symbol).has .hardPrivate = false := by
    rw [← hsymbol, (Program.Extends.symbol_kept hq hm.lt_size).hard, hm.soft]
  rw [hdomain]
  cases howner : (q.symbol e.symbol).owner with
  | none =>
    rw [(Program.mem_scopedSymbols hrec).2.2.2 howner]
    rfl
  | some owner =>
    rw [Program.domain_of_mem_scopedSymbols hrec howner, hsoft]
    rfl

/-- **Two symbols of one name part as soon as the name of one changes.** -/
theorem finalName_ne (hw : WellScoped p) (hs : p.source.LaidOut)
    (hsel : ∀ f ∈ files, f ∈ p.source.fileIds) (hm : p.CalledBy m name) (hm' : p.CalledBy m' name)
    (hne : m ≠ m') (hchanges : ((planMangle files opts).value p).Changes p m) :
    ((planMangle files opts).value p).finalName p m ≠
      ((planMangle files opts).value p).finalName p m' := by
  by_cases hmoves : ((planMangle files opts).value p).Renames m'
  · obtain ⟨⟨a, hsettled⟩, _⟩ := settled_planMangle opts hw hs hsel
    obtain ⟨r, hr, rfl, htarget⟩ := exists_target_eq_finalName (p := p) hchanges.renames
    obtain ⟨r', hr', rfl, htarget'⟩ := exists_target_eq_finalName (p := p) hmoves
    rw [← htarget, ← htarget']
    have : Std.Symm fun r r' : Renaming => Allocator.isHardPrivate r.domain = false →
        Allocator.isHardPrivate r'.domain = false → r.target ≠ r'.target :=
      ⟨fun _ _ h hd hd' heq => h hd' hd heq.symm⟩
    exact hsettled.sound.targets.forall hr hr' (fun heq => hne (by rw [heq]))
      (isHardPrivate_domain hw hs hsel hr hm) (isHardPrivate_domain hw hs hsel hr' hm')
  · rw [finalName_of_not_renames hmoves, hm'.name, ← hm.name]
    exact hchanges

end ManglePlan

/-- **What a plan makes of the members of a union.** -/
structure DividesUnions (p : Program) (plan : ManglePlan) : Prop where
  /-- A part of a union that has a property lets the union have it, and what is found is
  offered by a part. -/
  found : ∀ q, Later p q → ∀ t, (q.typeInfo t).kind = .union → ∀ name,
    ((q.property? t name).isSome = true ↔ ∃ m, q.FoundOnPart t name m) ∧
    ∀ m, q.property? t name = some m → ∃ c ∈ (q.typeInfo t).parts, q.Offers c name m
  /-- A node that is no name of a value or type is an occurrence of one symbol alone, apart
  from its declarations. -/
  single : ∀ n m m', n ∈ p.occurrences m → n ∈ p.occurrences m' → n ∉ (p.symbol m).decls →
    n ∉ (p.symbol m').decls → p.referenced[n]? = none → m = m'
  /-- The members that are called by the name keep one name together if they are one
  symbol, or if the names of all of them stay, and in no other case. -/
  together : ∀ q, Later p q → ∀ t, (q.typeInfo t).kind = .union → ∀ name,
    (∀ m, q.FoundOnPart t name m → p.CalledBy m name) →
    ((∀ m m', q.FoundOnPart t name m → q.FoundOnPart t name m' →
        plan.finalName p m = plan.finalName p m') ↔
      (∀ m m', q.FoundOnPart t name m → q.FoundOnPart t name m' → m = m') ∨
      ∀ m, q.FoundOnPart t name m → ¬ plan.Changes p m)

section

variable {files : List ParsedFile} {p : Program} {sel : List FileId}

/-- **The members of a union keep one name only if they are one symbol or none changes.** -/
theorem dividesUnions_planMangle (h : Program.build files = .ok p)
    (hsel : ∀ f ∈ sel, f ∈ p.source.fileIds) (opts : MangleOptions) :
    DividesUnions p ((planMangle sel opts).value p) := by
  obtain ⟨src, rfl, hs⟩ := Program.laidOut_of_build h
  have hw := Program.wellScoped_ofSource hs
  have hlaid : (Program.ofSource src).source.LaidOut := by rwa [Program.source_ofSource hs]
  refine ⟨fun q _ t hkind name => ⟨?_, fun m hm => Program.exists_offers_of_property? hkind hm⟩,
    fun n m m' hm hm' hdecl hdecl' hname =>
      (Program.exact_ofSource hs).eq_of_mem_occurrences hm hm' hdecl hdecl' hname,
    fun q _ t _ name hcalled => ⟨fun hsame => ?_, ?_⟩⟩
  · rw [Program.isSome_property?_union hkind]
    constructor
    · rintro ⟨c, hc, h⟩
      obtain ⟨m, hm⟩ := Option.isSome_iff_exists.mp h
      exact ⟨m, c, hc, hm⟩
    · rintro ⟨m, c, hc, hm⟩
      exact ⟨c, hc, by rw [hm]; rfl⟩
  · -- If there are two symbols, each of the members is other than one of them.
    by_contra hnot
    push Not at hnot
    obtain ⟨⟨m₁, m₂, h₁, h₂, hne⟩, m, hm, hchanges⟩ := hnot
    have hother : ∃ m', q.FoundOnPart t name m' ∧ m ≠ m' := by
      by_cases heq : m = m₁
      · exact ⟨m₂, h₂, heq ▸ hne⟩
      · exact ⟨m₁, h₁, heq⟩
    obtain ⟨m', hm', hne'⟩ := hother
    exact ManglePlan.finalName_ne hw hlaid hsel (hcalled m hm) (hcalled m' hm') hne' hchanges
      (hsame m m' hm hm')
  · rintro (hone | hstay) m m' hm hm'
    · rw [hone m m' hm hm']
    · rw [not_not.mp (hstay m hm), not_not.mp (hstay m' hm'), (hcalled m hm).name,
        (hcalled m' hm').name]

/-- A function that takes one of two interfaces with a member of one name. -/
def eitherSize : ParsedFile where
  path := "main.ts"
  contents :=
    ("interface A \x7b size: number \x7d interface B \x7b size: string \x7d " ++
      "function f(e: A | B) \x7b return e.size; \x7d").toUTF8
  tree :=
    .node "program" "" true 0 97 [
      .node "interface_declaration" "" true 0 28 [
        .node "type_identifier" "name" true 10 11 [],
        .node "interface_body" "body" true 12 28 [
          .node "property_signature" "" true 14 26 [
            .node "property_identifier" "name" true 14 18 [],
            .node "type_annotation" "type" true 18 26 [
              .node "predefined_type" "" true 20 26 []]]]],
      .node "interface_declaration" "" true 29 57 [
        .node "type_identifier" "name" true 39 40 [],
        .node "interface_body" "body" true 41 57 [
          .node "property_signature" "" true 43 55 [
            .node "property_identifier" "name" true 43 47 [],
            .node "type_annotation" "type" true 47 55 [
              .node "predefined_type" "" true 49 55 []]]]],
      .node "function_declaration" "" true 58 97 [
        .node "identifier" "name" true 67 68 [],
        .node "formal_parameters" "parameters" true 68 78 [
          .node "required_parameter" "" true 69 77 [
            .node "identifier" "pattern" true 69 70 [],
            .node "type_annotation" "type" true 70 77 [
              .node "union_type" "" true 72 77 [
                .node "type_identifier" "" true 72 73 [],
                .node "type_identifier" "" true 76 77 []]]]],
        .node "statement_block" "body" true 79 97 [
          .node "return_statement" "" true 81 95 [
            .node "member_expression" "" true 88 94 [
              .node "identifier" "object" true 88 89 [],
              .node "property_identifier" "property" true 90 94 []]]]]]

theorem dividesUnions_planMangle_eitherSize : ∃ p, Program.build [eitherSize] = .ok p ∧
    DividesUnions p ((planMangle [⟨0⟩] {}).value p) := by
  have hbuild := Program.build_singleton eitherSize
  refine ⟨_, hbuild, dividesUnions_planMangle hbuild (fun f hf => ?_) {}⟩
  rw [Program.fileIds_of_build hbuild, List.mem_singleton.mp hf]
  decide

end

end Moniker
