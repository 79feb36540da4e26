/-
# Answers last

A program is a snapshot of the sources.  Types are worked out when they are asked for and
remembered, so that whatever is asked later, in whatever order, finds the same answers
(`Program.AnswersLast`): the same type for a symbol or a node, and a type that is what it
was.  It has its kind, its members and its text; but a rule for an alias may give its name
to a type that has none, and then the type goes by this name.

Before it is first asked for, an answer may depend on what was asked before.  A circle of
definitions is cut where it is entered: the type that is asked for while it is worked out
is unknown there, and what was found out on the way is remembered.
-/

import Moniker.Proofs.Occurrences
import Moniker.Proofs.Typing.Stays

namespace Moniker

open Program (Asked Rested Onward)
open Typing (AllLinked Idle)

/-- The answer to a question is the same after whatever is asked next. -/
def Build.Lasts (m : Build α) (p : Program) : Prop :=
  ∀ q, Asked (m.after p) q → m.value q = m.value p

/-! ### Members and texts of types -/

namespace Program

variable {p q : Program} {t : TypeId}

theorem typeMembers_eq (hkept : (p.typeInfo t).Kept (q.typeInfo t))
    (htable : ∀ own, (p.typeInfo t).members = some own → q.table own = p.table own) :
    q.typeMembers t = p.typeMembers t := by
  rw [typeMembers, typeMembers, hkept.members_eq]
  cases hown : (p.typeInfo t).members with
  | none => rfl
  | some own => simp only [Option.map_some, htable own hown]

/-- What the text of a type goes by is there, and the text is complete at this depth. -/
def Prints (p : Program) : Nat → TypeId → Prop
  | 0, _ => False
  | depth + 1, t => t.idx < p.types.size ∧
    (∀ s, (p.typeInfo t).alias? = some s ∨ (p.typeInfo t).symbol = some s →
      s.idx < p.symbols.size) ∧
    ∀ u ∈ (p.typeInfo t).parts, p.Prints depth u

/-- The objects there are have the alias names that they had. -/
def SameAliases (p q : Program) : Prop :=
  ∀ t : TypeId, t.idx < p.types.size → (p.typeInfo t).kind = .object →
    (q.typeInfo t).alias? = (p.typeInfo t).alias?

/-- A text that is complete stays as it is, at any greater depth. -/
theorem typeTextWithin_eq (hkept : ∀ t : TypeId, t.idx < p.types.size →
      (p.typeInfo t).Kept (q.typeInfo t))
    (hnames : ∀ s : SymbolId, s.idx < p.symbols.size → (q.symbol s).name = (p.symbol s).name)
    (hsame : SameAliases p q) {depth more : Nat} (h : p.Prints depth t) (hmore : depth ≤ more) :
    q.typeTextWithin more t = p.typeTextWithin depth t := by
  induction depth generalizing t more with
  | zero => exact h.elim
  | succ depth ih =>
    obtain ⟨more, rfl⟩ := Nat.exists_eq_succ_of_ne_zero (by omega : more ≠ 0)
    obtain ⟨hlt, hsymbols, hparts⟩ := h
    have hinfo := hkept t hlt
    have htexts : ∀ u ∈ (p.typeInfo t).parts, q.typeTextWithin more u = p.typeTextWithin depth u :=
      fun u hu => ih (hparts u hu) (by omega)
    unfold typeTextWithin
    simp only [hinfo.kind_eq, hinfo.name_eq, hinfo.parts_eq, hinfo.symbol_eq]
    split
    · rfl
    · rw [List.map_congr_left htexts]
    · rw [List.map_congr_left htexts]
    · split
      · next element heq => rw [htexts element (by simp [heq])]
      · rfl
    · rfl
    · next hobject =>
      rw [hsame t hlt hobject]
      split
      · next a heq => exact hnames a (hsymbols a (.inl heq))
      · next s hnone heq => exact hnames s (hsymbols s (.inr heq))
      · rfl

end Program

/-! ### Answers -/

/-- The same answers in every further history. -/
structure Program.AnswersLast (p : Program) : Prop where
  value : ∀ q, Asked p q → ∀ s, (Build.typeOfSymbol s).Lasts q
  declared : ∀ q, Asked p q → ∀ s, ((Build.declaredTypeOf s).value q).isSome = true →
    (Build.declaredTypeOf s).Lasts q
  node : ∀ q, Asked p q → ∀ n, (∀ s, q.declaringAt? q.source n = some s →
    ((Build.declaredTypeOf s).value q).isSome = true) → (Build.typeOfNode n).Lasts q
  linked : ∀ q, Asked p q → ∀ n, p.declared[n]? = none →
    p.source.kind n ∈ Typing.linkingExpressions ++ Typing.linkingAnnotations →
      (Build.typeOfNode n).value q = (Build.typeOfNode n).value p
  remembered : ∀ q, Asked p q → ∀ s t,
    (p.valueTypes[s]? = some t → (Build.typeOfSymbol s).value q = t) ∧
    (p.declaredTypes[s]? = some t → (Build.declaredTypeOf s).value q = some t)
  kept : ∀ q r, Asked p q → Asked q r → ∀ t : TypeId, t.idx < q.types.size →
    (q.typeInfo t).Kept (r.typeInfo t)
  members : ∀ q r, Asked p q → Asked q r → ∀ t : TypeId, t.idx < q.types.size →
    (∀ own, (q.typeInfo t).members = some own → own.idx < q.tables.size) →
      r.typeMembers t = q.typeMembers t
  text : ∀ q r, Asked p q → Asked q r → q.SameAliases r →
    ∀ t, q.Prints (q.types.size + 1) t → r.typeText t = q.typeText t

namespace Program

variable {src : Source} {p q r : Program} {n : NodeId}

theorem Asked.allLinked (h : Asked p q) (hp : AllLinked p.source p) : AllLinked q.source q := by
  rw [h.extends.source_eq]
  exact (h.rested hp).allLinked hp

theorem Asked.onward (h : Asked p q) (hp : AllLinked p.source p) : Onward p.source p q :=
  ⟨h.extends, (h.rested hp).fewer⟩

/-- What stays when a query is run again lasts when a user asks. -/
theorem lasts_ask {question : (src : Source) → Query src [] α} (hp : AllLinked p.source p)
    (hask : (Build.ask question).Inquires) (h : (question p.source).Stays p) :
    (Build.ask question).Lasts p := by
  intro q hq
  have hafter : Asked p ((Build.ask question).after p) := hask p
  have hall : Asked p q := hafter.trans hq
  have hrest := hq.onward (hafter.allLinked hp)
  rw [hafter.extends.source_eq] at hrest
  change ((question q.source).run q).1 = ((question p.source).run p).1
  rw [hall.extends.source_eq]
  exact h q (hall.onward hp) hrest

/-- Names declare symbols that there are. -/
theorem declared_lt_ofSource (hs : src.LaidOut) {s : SymbolId}
    (h : (ofSource src).declared[n]? = some s) : s.idx < (ofSource src).symbols.size := by
  rcases (extends_linked src).declared_cases n with heq | ⟨t, ht, -, hlt, -⟩
  · rw [heq, declared_linked] at h
    have hbound := ((filed_bound hs).declared h).1
    rw [← symbols_linked] at hbound
    exact hbound.trans_le (extends_linked src).scopes_kept.1
  · rwa [← Option.some.inj (ht.symm.trans h)]

/-- **Answers last.** When a program has been built, a question about types that has been
answered is answered the same from then on, whatever is asked in the meantime; of what symbols
declare this is said where they do declare a type.  What checking has worked out has one answer
whatever was asked before: the types that it has remembered for symbols, and the types of
accesses, object literals, dotted and indexed types.  A type keeps its kind, what it is made
of, its members, and its text as long as no object in it is given the name of an alias. -/
theorem answersLast_of_build {files : List ParsedFile} (h : build files = .ok p) :
    p.AnswersLast := by
  obtain ⟨src, rfl, hs⟩ := laidOut_of_build h
  have hsource := source_ofSource hs
  have hlinked : AllLinked (ofSource src).source (ofSource src) := by
    rw [hsource]
    exact allLinked_ofSource hs
  have hat {q : Program} (hq : Asked (ofSource src) q) : AllLinked q.source q ∧ Idle q :=
    ⟨hq.allLinked hlinked, (idle_ofSource hs).rested (hq.rested hlinked)⟩
  refine ⟨fun q hq s => ?_, fun q hq s hsome => ?_, fun q hq n hsome => ?_,
    fun q hq n hnone hn => ?_, fun q hq s t => ⟨fun ht => ?_, fun ht => ?_⟩, fun q r hq hr t ht => ?_,
    fun q r hq hr t ht hown => ?_, fun q r hq hr hsame t ht => ?_⟩
  · exact lasts_ask (hat hq).1 (.typeOfSymbol s) (Query.typeOfSymbol_stays (hat hq).2 s)
  · exact lasts_ask (hat hq).1 (.declaredTypeOf s)
      (Query.declaredTypeOf_stays (hat hq).1 (hat hq).2 hsome)
  · refine lasts_ask (hat hq).1 (.typeOfNode n)
      (Query.typeOfNode_stays (hat hq).1 (hat hq).2 (fun s hs' => ?_) hsome)
    rw [((hq.rested hlinked).index trivial).declared] at hs'
    exact (declared_lt_ofSource hs hs').trans_le hq.extends.scopes_kept.1
  · obtain ⟨t, ht⟩ := Query.typeOfNode_of_linking hlinked hnone hn
    change ((Query.typeOfNode n : Query q.source [] TypeId).run q).1 = _
    rw [hq.extends.source_eq, ht q (hq.onward hlinked)]
    exact (congrArg Prod.fst (ht _ (.refl _))).symm
  · have hrecalled := (hq.onward hlinked).recalled (x := .answer (.valueOf s)) ht
    exact congrArg Prod.fst
      (Typing.run_known (@Typing.solve_of_recalled q.source q (.valueOf s) t hrecalled))
  · have hrecalled := (hq.onward hlinked).recalled (x := .answer (.declaredBy s)) ht
    exact congrArg Prod.fst (@Typing.solve_of_recalled q.source q (.declaredBy s) t hrecalled)
  · exact ((hr.rested (hat hq).1).answers trivial).kept t ht
  · have hanswers := (hr.rested (hat hq).1).answers trivial
    exact typeMembers_eq (hanswers.kept t ht) fun own h => hanswers.tables.2 own (hown own h)
  · have hrested := hr.rested (hat hq).1
    exact typeTextWithin_eq (hrested.answers trivial).kept
      (fun s hs => (hr.extends.symbol_kept hs).name) hsame ht (Nat.succ_le_succ hrested.types)

/-- Two variables that go by each other. -/
def circle : ParsedFile where
  path := "circle.ts"
  contents := "let a = b || 1;\nlet b = a || \"x\";".toUTF8
  tree :=
    .node "program" "" true 0 33 [
      .node "lexical_declaration" "" true 0 15 [
        .node "variable_declarator" "" true 4 14 [
          .node "identifier" "name" true 4 5 [],
          .node "binary_expression" "value" true 8 14 [
            .node "identifier" "left" true 8 9 [],
            .node "||" "operator" false 10 12 [],
            .node "number" "right" true 13 14 []]]],
      .node "lexical_declaration" "" true 16 33 [
        .node "variable_declarator" "" true 20 32 [
          .node "identifier" "name" true 20 21 [],
          .node "binary_expression" "value" true 24 32 [
            .node "identifier" "left" true 24 25 [],
            .node "||" "operator" false 26 28 [],
            .node "string" "right" true 29 32 [
              .node "string_fragment" "" true 30 31 []]]]]]

theorem answersLast_of_build_circle : ∃ p, build [circle] = .ok p ∧ p.AnswersLast :=
  ⟨_, build_singleton circle, answersLast_of_build (build_singleton circle)⟩

end Program
end Moniker
