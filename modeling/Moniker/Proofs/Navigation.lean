/-
# Finding a name by its file and its start

In a tree as parsers make them children lie inside their parent and one behind the other, and
tokens have none (`Source.Nested`).  So two nodes of which neither lies below the other are
apart (`Source.Nested.apart`), and the way down over the offset at which a name starts leads
to the name (`Source.Nested.nodeAt?_start`), if nothing named in the name starts there too.

The files of a program have clean paths, each its own, so the path of a file leads to it
(`Program.fileAt?_path`).
-/

import Moniker.Proofs.RelativePaths
import Moniker.Proofs.Stages
import Mathlib.Data.List.Pairwise

namespace Moniker
namespace Source

variable {src : Source} {a b c m n : NodeId} {f : FileId}

/-- The trees are made as parsers make them. -/
structure Nested (src : Source) : Prop where
  /-- Children lie inside their parent. -/
  inside : ∀ n, ∀ c ∈ src.children n,
    src.start n ≤ src.start c ∧ src.start c ≤ src.stop c ∧ src.stop c ≤ src.stop n
  /-- They lie one behind the other. -/
  inOrder : ∀ n, (src.children n).Pairwise fun a b => src.stop a ≤ src.start b
  /-- A tree covers no more than its file. -/
  inFile : ∀ f ∈ src.fileIds, src.stop (src.file f).root ≤ (src.file f).contents.size
  /-- Tokens have no children. -/
  tokens : ∀ n, src.named n = false → src.children n = []

/-- One of the nodes ends before the other begins. -/
def Apart (src : Source) (m n : NodeId) : Prop :=
  src.stop m ≤ src.start n ∨ src.stop n ≤ src.start m

/-- What lies below a node lies inside it. -/
theorem Below.inside (h : src.Nested) (hn : src.Below a n) :
    src.start a ≤ src.start n ∧ src.stop n ≤ src.stop a := by
  induction hn with
  | refl => exact ⟨le_rfl, le_rfl⟩
  | tail _ hc ih =>
    have hchild := h.inside _ _ hc
    exact ⟨ih.1.trans hchild.1, hchild.2.2.trans ih.2⟩

namespace Nested

theorem sibling_apart (h : src.Nested) (ha : a ∈ src.children n) (hb : b ∈ src.children n)
    (hne : a ≠ b) : src.Apart a b := by
  have : Std.Symm src.Apart := ⟨fun _ _ h => h.symm⟩
  have hapart : (src.children n).Pairwise src.Apart := (h.inOrder n).imp .inl
  exact hapart.forall ha hb hne

/-- **Nodes are apart unless one lies below the other.** -/
theorem apart (h : src.Nested) (hm : src.Below a m) (hn : src.Below a n)
    (hmn : ¬ src.Below m n) (hnm : ¬ src.Below n m) : src.Apart m n := by
  induction hm using Relation.ReflTransGen.head_induction_on with
  | refl => exact absurd hn hmn
  | @head a c hc hcm ih =>
    rcases Relation.ReflTransGen.cases_head hn with rfl | ⟨d, hd, hdn⟩
    · exact absurd (.head hc hcm) hnm
    · by_cases hcd : c = d
      · exact ih (hcd ▸ hdn)
      · have hm := Below.inside h hcm
        have hn := Below.inside h hdn
        have hsiblings := h.sibling_apart hc hd hcd
        unfold Apart at hsiblings ⊢
        omega

/-- Of the children of a node only one leads down to a name that is not empty. -/
theorem find?_covers (h : src.Nested) (hc : c ∈ src.children a) (hn : src.Below c n)
    (hnamed : src.named n = true) (hne : src.start n < src.stop n) :
    (src.children a).find? (fun c => src.named c && src.covers c (src.start n)) = some c := by
  have hcovers {d : NodeId} : src.covers d (src.start n) = true ↔
      src.start d ≤ src.start n ∧ src.start n < src.stop d := by
    rw [covers, Bool.and_eq_true, decide_eq_true_iff, decide_eq_true_iff]
    omega
  have hinside := Below.inside h hn
  have hown : src.named c = true := by
    rcases Relation.ReflTransGen.cases_head hn with rfl | ⟨d, hd, -⟩
    · exact hnamed
    · by_contra hunnamed
      rw [h.tokens c (Bool.eq_false_iff.mpr hunnamed)] at hd
      exact nomatch hd
  cases hfind : (src.children a).find? fun c => src.named c && src.covers c (src.start n) with
  | none =>
    have hmiss := List.find?_eq_none.mp hfind c hc
    rw [hown, Bool.true_and, hcovers] at hmiss
    omega
  | some d =>
    have hd := List.find?_some hfind
    rw [Bool.and_eq_true, hcovers] at hd
    by_contra hdc
    have happart := h.sibling_apart (List.mem_of_find?_eq_some hfind) hc fun heq => hdc (heq ▸ rfl)
    unfold Apart at happart
    omega

/-- The way down over the start of a name ends at the name. -/
theorem descendTo_start (h : src.Nested) (hs : src.LaidOut) (hn : src.Below a n)
    (hnamed : src.named n = true) (hne : src.start n < src.stop n)
    (hlast : ∀ c ∈ src.children n, src.named c = true → src.start n < src.start c) (fuel : Nat)
    (hfuel : n.idx ≤ a.idx + fuel) : src.descendTo (src.start n) fuel a = n := by
  induction hn using Relation.ReflTransGen.head_induction_on generalizing fuel with
  | refl =>
    cases fuel with
    | zero => rfl
    | succ fuel =>
      have hnone : (src.children n).find? (fun c => src.named c && src.covers c (src.start n)) =
          none := by
        refine List.find?_eq_none.mpr fun c hc hcovers => ?_
        simp only [covers, Bool.and_eq_true, decide_eq_true_iff] at hcovers
        have hlt := hlast c hc hcovers.1
        omega
      rw [descendTo, hnone]
  | @head a c hc hcn ih =>
    have hlt := (hs.child_lt hc).1
    have hle := Below.idx_le hs hcn
    cases fuel with
    | zero => omega
    | succ fuel =>
      rw [descendTo, h.find?_covers hc hcn hnamed hne]
      exact ih fuel (by omega)

/-- **The deepest node over the start of a name is the name.** -/
theorem nodeAt?_start (h : src.Nested) (hs : src.LaidOut) (hn : n.idx < src.nodes.size)
    (hnamed : src.named n = true) (hne : src.start n < src.stop n)
    (hlast : ∀ c ∈ src.children n, src.named c = true → src.start n < src.start c) :
    src.nodeAt? (src.file (src.fileOf n)).root (src.start n) = some n := by
  have hbelow := (hs.below_root n hn).2
  have hinside := Below.inside h hbelow
  have hcovers : src.covers (src.file (src.fileOf n)).root (src.start n) = true := by
    rw [covers, Bool.and_eq_true, decide_eq_true_iff, decide_eq_true_iff]
    omega
  rw [nodeAt?, if_pos hcovers, h.descendTo_start hs hbelow hnamed hne hlast _ (by omega)]

/-- A node ends in its file. -/
theorem stop_le_size (h : src.Nested) (hs : src.LaidOut) (hn : n.idx < src.nodes.size) :
    src.stop n ≤ (src.file (src.fileOf n)).contents.size := by
  obtain ⟨hfile, hbelow⟩ := hs.below_root n hn
  exact (Below.inside h hbelow).2.trans (h.inFile _ hfile)

end Nested

/-- The files have clean paths, each its own. -/
structure Addressed (src : Source) : Prop where
  clean : ∀ f ∈ src.fileIds, Path.clean (src.file f).path = (src.file f).path
  distinct : ∀ f ∈ src.fileIds, ∀ g ∈ src.fileIds, (src.file f).path = (src.file g).path → f = g

theorem addressed_empty : Addressed {} where
  clean _ h := absurd (mem_fileIds.mp h) (Nat.not_lt_zero _)
  distinct _ h := absurd (mem_fileIds.mp h) (Nat.not_lt_zero _)

/-- One more file, at a clean path at which there is none. -/
theorem Addressed.add {path : String} {contents : ByteArray} {tree : Tree} (h : src.Addressed)
    (hnew : (src.files.any fun g => g.path == Path.clean path) = false) :
    (src.add (Path.clean path) contents tree).Addressed := by
  have hfile : ∀ f ∈ src.fileIds, (src.add (Path.clean path) contents tree).file f = src.file f :=
    fun f hf => by rw [file_add, if_neg (mem_fileIds.mp hf).ne]
  have hlast : (src.add (Path.clean path) contents tree).file ⟨src.files.size⟩ =
      ⟨Path.clean path, contents, ⟨src.nodes.size⟩⟩ := by rw [file_add, if_pos rfl]
  have hcases : ∀ f ∈ (src.add (Path.clean path) contents tree).fileIds,
      f ∈ src.fileIds ∨ f = ⟨src.files.size⟩ := by
    intro f hf
    rw [mem_fileIds, files_size_add, Nat.lt_succ_iff_lt_or_eq] at hf
    exact hf.imp mem_fileIds.mpr (congrArg FileId.mk)
  have hother : ∀ f ∈ src.fileIds, (src.file f).path ≠ Path.clean path := by
    intro f hf heq
    have hlt := mem_fileIds.mp hf
    rw [Array.any_eq_false] at hnew
    refine hnew f.idx hlt (beq_iff_eq.mpr ?_)
    rwa [file, Array.getD_eq_getD_getElem?, Array.getElem?_eq_getElem hlt] at heq
  refine ⟨fun f hf => ?_, fun f hf g hg heq => ?_⟩
  · rcases hcases f hf with hf | rfl
    · rw [hfile f hf, h.clean f hf]
    · rw [hlast, Path.clean_clean]
  · rcases hcases f hf with hf | rfl <;> rcases hcases g hg with hg | rfl
    · rw [hfile f hf, hfile g hg] at heq
      exact h.distinct f hf g hg heq
    · rw [hfile f hf, hlast] at heq
      exact absurd heq (hother f hf)
    · rw [hfile g hg, hlast] at heq
      exact absurd heq.symm (hother g hg)
    · rfl

end Source

namespace Program

variable {src : Source} {p q : Program} {f : FileId} {files : List ParsedFile}

theorem addressed_layOut {src' : Source} (hp : src.Addressed) (h : layOut files src = .ok src') :
    src'.Addressed := by
  induction files generalizing src with
  | nil =>
    rw [layOut] at h
    rwa [← Except.ok.inj h]
  | cons f rest ih =>
    rw [layOut] at h
    split at h
    · cases h
    · next hnew => exact ih (hp.add (Bool.eq_false_iff.mpr hnew)) h

theorem source_laidOut (h : build files = .ok p) : p.source.LaidOut := by
  obtain ⟨src, rfl, hs⟩ := laidOut_of_build h
  rwa [source_ofSource hs]

/-- **The files a program is built from have clean paths,** each its own. -/
theorem addressed_of_build (h : build files = .ok p) : p.source.Addressed := by
  unfold build at h
  cases hl : layOut files {} with
  | error e =>
    rw [hl] at h
    exact nomatch h
  | ok src =>
    rw [hl] at h
    obtain rfl : ofSource src = p := Except.ok.inj h
    rw [source_ofSource (laidOut_layOut Source.laidOut_empty hl)]
    exact addressed_layOut Source.addressed_empty hl

theorem modulesByPath_opened (hp : src.Addressed) (hf : f ∈ src.fileIds) :
    (opened src).modulesByPath[(src.file f).path]? = some ⟨f.idx⟩ := by
  have h : ∀ k ≤ src.files.size, ∀ g : FileId, g.idx < k →
      ((((List.range k).map FileId.mk).forM (openModule src)).after
        ((Build.newScope .global none none).after
          { source := src })).modulesByPath[(src.file g).path]? = some ⟨g.idx⟩ := by
    intro k
    induction k with
    | zero => exact fun _ g hg => nomatch hg
    | succ k ih =>
      intro hk g hg
      rw [List.range_succ, List.map_append, Build.after_forM_append]
      generalize hold : ((List.range k).map FileId.mk).forM (openModule src) = old at ih
      -- Opening a module changes the table at the path of its file only.
      change ((old.after _).modulesByPath.insert (src.file ⟨k⟩).path ⟨k⟩)[(src.file g).path]? = _
      rw [Table.getElem?_insert]
      split
      · next heq =>
        have hkg := hp.distinct ⟨k⟩ (Source.mem_fileIds.mpr hk) g
          (Source.mem_fileIds.mpr (hg.trans_le hk)) (eq_of_beq heq)
        rw [← hkg]
      · next hne =>
        refine ih (Nat.le_of_succ_le hk) g (lt_of_le_of_ne (Nat.lt_succ_iff.mp hg) ?_)
        rintro rfl
        exact hne (beq_self_eq_true _)
  exact h _ le_rfl f (Source.mem_fileIds.mp hf)

/-- **The path of a file leads to the file.** -/
theorem fileAt?_path (hs : src.LaidOut) (hp : src.Addressed) (hf : f ∈ src.fileIds) :
    (ofSource src).fileAt? (src.file f).path = some f := by
  have hmodules : (ofSource src).modulesByPath = (opened src).modulesByPath := by
    calc (ofSource src).frame.modulesByPath
      _ = (linked src).unlinked.modulesByPath := by rw [(extends_linked src).frame_eq]; rfl
      _ = (bound src).undeclared.modulesByPath := by rw [unlinked_linked]; rfl
      _ = _ := by rw [undeclared_bound hs]; rfl
  have hmodule : (ofSource src).moduleInfo ⟨f.idx⟩ = (bound src).moduleOf f := moduleInfo_ofSource _
  rw [fileAt?, hp.clean f hf, hmodules, modulesByPath_opened hp hf, Option.map_some, hmodule,
    (isModule_bound hs hf).file]

end Program
end Moniker
