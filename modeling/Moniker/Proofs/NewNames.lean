/-
# New names are unique and legal

A plan renames a symbol once at most, and only if the analysis has found none of its
declarations to be public.  The new names outside hard-private domains are pairwise
different, whichever domains and files they belong to, because the allocator
remembers what it has given out.  Hard-private domains leave that memory alone: their
names are pairwise different within one class, because the pool of a domain only
moves forward, and they begin with `#`, because that is the head of the pool.  No new
name is a keyword, reserved, or used for something undeclared in the file of the
declaration.

All this is kept by a step of the allocator (`Allocator.Sound`), so
`legalNames_planMangle` is read off the finished plan.
-/

import Moniker.Proofs.Plans
import Moniker.Proofs.Stages

namespace Moniker

open Program (Later)

/-- A drawn name begins with the head of its pool. -/
theorem NamePool.Spent.exists_eq_head {pool : NamePool} {name : String} (h : pool.Spent name) :
    ∃ rest, name = pool.head ++ rest := by
  obtain ⟨i, _, rfl⟩ := h
  exact ⟨minified i, rfl⟩

/-- An entry beside a public one of the same symbol is no candidate. -/
theorem Analysis.visibility_of_symbol_eq {a : Analysis} {e e' : Entry} (he : e ∈ a.candidates)
    (he' : e' ∈ a.entries) (hs : e'.symbol = e.symbol) : e'.visibility ≠ .public_ := by
  intro hpublic
  have hblocked : e'.symbol ∈ a.blocked :=
    List.mem_map.mpr ⟨e', List.mem_filter.mpr ⟨he', by rw [hpublic]; rfl⟩, rfl⟩
  exact (mem_firstEntries he).2 (hs ▸ hblocked)

namespace ManglePlan

/-- The new names of a plan are unique and legal. -/
structure LegalNames (p : Program) (opts : MangleOptions) (plan : ManglePlan) : Prop where
  /-- No symbol is renamed twice. -/
  once : plan.renamings.Pairwise fun r r' => r.symbol ≠ r'.symbol
  /-- A renamed symbol is public in none of its entries. -/
  internal : ∀ r ∈ plan.renamings, ∀ e ∈ plan.analysis.entries, e.symbol = r.symbol →
    e.visibility ≠ .public_
  /-- Lexical and member names are different, whatever the domains and the files. -/
  apart : plan.renamings.Pairwise fun r r' => Allocator.isHardPrivate r.domain = false →
    Allocator.isHardPrivate r'.domain = false → r.target ≠ r'.target
  /-- Names of hard-private members of one class are different. -/
  hardApart : ∀ owner, (plan.renamings.filter fun r => r.domain == .hardPrivate owner).Pairwise
    fun r r' => r.target ≠ r'.target
  /-- Names of hard-private members begin with a hash. -/
  hashed : ∀ r ∈ plan.renamings, ∀ owner, r.domain = .hardPrivate owner →
    ∃ rest, r.target = "#" ++ rest
  notKeyword : ∀ r ∈ plan.renamings, r.target ∉ keywords
  notReserved : ∀ r ∈ plan.renamings, r.target ∉ opts.reserved
  notUnresolved : ∀ r ∈ plan.renamings, r.target ∉ p.unresolvedNames (p.source.fileOf r.decl)

variable {p final : Program} {a : Allocator} {out : List Renaming}

/-- Of the names given out, those of one domain are pairwise different. -/
theorem pairwise_filter_domain (h : Allocator.Sound p final a out) (d : Domain) :
    (out.filter fun r => r.domain == d).Pairwise fun r r' => r.target ≠ r'.target := by
  rw [List.pairwise_filter]
  refine h.drawn.imp fun {r r'} hdrawn hr hr' => hdrawn ?_
  rw [eq_of_beq hr, eq_of_beq hr']

/-- A name given out begins with the head of the pool its domain starts with. -/
theorem exists_eq_head (h : Allocator.Sound p final a out) {r : Renaming} (hr : r ∈ out) :
    ∃ rest, r.target = (Allocator.startPool r.domain).head ++ rest := by
  obtain ⟨names, hnames, hspent⟩ := h.spent r hr
  rw [← h.heads _ _ hnames]
  exact hspent.exists_eq_head

end ManglePlan

/-- **New names are unique and legal,** in whatever order the program has been asked for
types before. -/
theorem legalNames_planMangle {files : List ParsedFile} {p q : Program}
    (h : Program.build files = .ok p) (hq : Later p q) {sel : List FileId}
    (hsel : ∀ f ∈ sel, f ∈ q.source.fileIds) (opts : MangleOptions) :
    ((planMangle sel opts).value q).LegalNames q opts := by
  obtain ⟨src, rfl, hs⟩ := Program.laidOut_of_build h
  have hsource : q.source = src := hq.source_eq.trans (Program.source_ofSource hs)
  have hw : WellScoped q := hq.wellScoped (Program.wellScoped_ofSource hs)
  obtain ⟨⟨a, ⟨hsound, _⟩, hreserved⟩, hrenames⟩ :=
    ManglePlan.exists_settled_planMangle opts hw (hsource.symm ▸ hs) hsel
  refine ⟨hsound.symbols, ?_, hsound.targets, fun owner =>
    ManglePlan.pairwise_filter_domain hsound _, ?_, fun r hr => (hsound.legal r hr).1, ?_,
    hsound.unresolved⟩
  · intro r hr e' he' hsymbol
    obtain ⟨e, he, heq, _⟩ := hrenames r hr
    rw [ManglePlan.analysis_planMangle] at he'
    exact Analysis.visibility_of_symbol_eq he he' (hsymbol.trans heq)
  · intro r hr owner hd
    have hhead := ManglePlan.exists_eq_head hsound hr
    rwa [hd] at hhead
  · intro r hr
    rw [← hreserved]
    exact (hsound.legal r hr).2

/-- A class with a private and a hard-private member, in a file that uses a name nothing
declares. -/
def keptSecret : ParsedFile where
  path := "main.ts"
  contents := "class Safe \x7b #code; hint = a \x7d".toUTF8
  tree :=
    .node "program" "" true 0 30 [
      .node "class_declaration" "" true 0 30 [
        .node "class" "" false 0 5 [],
        .node "type_identifier" "name" true 6 10 [],
        .node "class_body" "body" true 11 30 [
          .node "public_field_definition" "" true 13 18 [
            .node "private_property_identifier" "name" true 13 18 []],
          .node "public_field_definition" "" true 20 28 [
            .node "property_identifier" "name" true 20 24 [],
            .node "identifier" "value" true 27 28 []]]]]

theorem legalNames_planMangle_keptSecret : ∃ p, Program.build [keptSecret] = .ok p ∧
    ((planMangle [⟨0⟩] { reserved := ["b"] }).value p).LegalNames p { reserved := ["b"] } := by
  have hbuild := Program.build_singleton keptSecret
  refine ⟨_, hbuild, legalNames_planMangle hbuild (Later.refl _) (fun f hf => ?_) _⟩
  rw [Program.fileIds_of_build hbuild, List.mem_singleton.mp hf]
  decide

end Moniker
