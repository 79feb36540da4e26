/-
# The tree behind the array of nodes

Trees are laid out in one array, a node before its children.  `Grown` says what
laying out appends to an array: the nodes that were there stay, every new node but
the topmost ones stands among the children of an earlier new node, and children
point back to the node they are children of.  From it follows that a `Source` made
of parsed files is `LaidOut`: parents and children are inverse to each other,
children come after their parents, and every node lies below the root of its file.

`Below` is the order of the tree.  Two nodes with a common node below them are
comparable (`Below.linear`), so different children of a node have nothing in
common (`LaidOut.sibling_eq`).
-/

import Moniker.Program.Build
import Mathlib.Logic.Relation
import Mathlib.Order.Nat

namespace Moniker

/-- What laying out trees in an array of nodes appends to it. `tops` are the roots
of the trees. -/
structure Grown (file : FileId) (parent : Option NodeId) (old new : Array Node)
    (tops : List NodeId) : Prop where
  size_le : old.size ≤ new.size
  kept : ∀ i < old.size, new.getD i default = old.getD i default
  file_eq : ∀ i, old.size ≤ i → i < new.size → (new.getD i default).file = file
  top : ∀ c ∈ tops,
    old.size ≤ c.idx ∧ c.idx < new.size ∧ (new.getD c.idx default).parent = parent
  sorted : tops.Pairwise fun a b => a.idx < b.idx
  covered : ∀ i, old.size ≤ i → i < new.size → ⟨i⟩ ∈ tops ∨
    ∃ q : NodeId, old.size ≤ q.idx ∧ q.idx < i ∧ (new.getD i default).parent = some q ∧
      ⟨i⟩ ∈ (new.getD q.idx default).children
  child : ∀ i, old.size ≤ i → i < new.size → ∀ c ∈ (new.getD i default).children,
    i < c.idx ∧ c.idx < new.size ∧ (new.getD c.idx default).parent = some ⟨i⟩
  child_sorted : ∀ i, old.size ≤ i → i < new.size →
    (new.getD i default).children.Pairwise fun a b => a.idx < b.idx

namespace Grown

variable {file : FileId} {parent : Option NodeId} {a b c : Array Node} {ids more : List NodeId}

theorem nil : Grown file parent a a [] where
  size_le := le_rfl
  kept _ _ := rfl
  file_eq i h₁ h₂ := by omega
  top _ h := nomatch h
  sorted := .nil
  covered i h₁ h₂ := by omega
  child i h₁ h₂ := by omega
  child_sorted i h₁ h₂ := by omega

/-- Trees laid out after each other. -/
theorem append (h₁ : Grown file parent a b ids) (h₂ : Grown file parent b c more) :
    Grown file parent a c (ids ++ more) where
  size_le := h₁.size_le.trans h₂.size_le
  kept i hi := (h₂.kept i (hi.trans_le h₁.size_le)).trans (h₁.kept i hi)
  file_eq i hi hc := by
    rcases lt_or_ge i b.size with hb | hb
    · rw [h₂.kept i hb]; exact h₁.file_eq i hi hb
    · exact h₂.file_eq i hb hc
  top x hx := by
    rcases List.mem_append.mp hx with hx | hx
    · obtain ⟨lo, hi, hp⟩ := h₁.top x hx
      exact ⟨lo, hi.trans_le h₂.size_le, by rw [h₂.kept _ hi]; exact hp⟩
    · obtain ⟨lo, hi, hp⟩ := h₂.top x hx
      exact ⟨h₁.size_le.trans lo, hi, hp⟩
  sorted := by
    refine List.pairwise_append.mpr ⟨h₁.sorted, h₂.sorted, fun x hx y hy => ?_⟩
    exact (h₁.top x hx).2.1.trans_le (h₂.top y hy).1
  covered i hi hc := by
    rcases lt_or_ge i b.size with hb | hb
    · rcases h₁.covered i hi hb with h | ⟨q, lo, hq, hp, hm⟩
      · exact .inl (List.mem_append_left _ h)
      · refine .inr ⟨q, lo, hq, ?_, ?_⟩
        · rw [h₂.kept i hb]; exact hp
        · rw [h₂.kept q.idx (hq.trans hb)]; exact hm
    · rcases h₂.covered i hb hc with h | ⟨q, lo, hq, hp, hm⟩
      · exact .inl (List.mem_append_right _ h)
      · exact .inr ⟨q, h₁.size_le.trans lo, hq, hp, hm⟩
  child i hi hc x hx := by
    rcases lt_or_ge i b.size with hb | hb
    · rw [h₂.kept i hb] at hx
      obtain ⟨lt, hx, hp⟩ := h₁.child i hi hb x hx
      exact ⟨lt, hx.trans_le h₂.size_le, by rw [h₂.kept _ hx]; exact hp⟩
    · exact h₂.child i hb hc x hx
  child_sorted i hi hc := by
    rcases lt_or_ge i b.size with hb | hb
    · rw [h₂.kept i hb]; exact h₁.child_sorted i hi hb
    · exact h₂.child_sorted i hb hc

/-- A node laid out before its children, which are entered into it afterwards. -/
theorem node {own : Node} (hparent : own.parent = parent) (hfile : own.file = file)
    (h : Grown file (some ⟨a.size⟩) (a.push own) b ids) :
    Grown file parent a (b.modify a.size fun n => { n with children := ids }) [⟨a.size⟩] := by
  have hlt : a.size < b.size := by
    have := h.size_le
    rwa [Array.size_push] at this
  have hother : ∀ i, i ≠ a.size →
      (b.modify a.size fun n => { n with children := ids }).getD i default = b.getD i default := by
    intro i hi
    rw [getD_modify, if_neg fun hc => hi hc.1.symm]
  have hself : (b.modify a.size fun n => { n with children := ids }).getD a.size default
      = { own with children := ids } := by
    rw [getD_modify, if_pos ⟨rfl, hlt⟩, h.kept a.size (by simp), getD_push, if_pos rfl]
  have hnew : ∀ i, a.size ≤ i → i ≠ a.size → (a.push own).size ≤ i := by
    intro i h₁ h₂
    rw [Array.size_push]
    omega
  refine ⟨?_, ?_, ?_, ?_, ?_, ?_, ?_, ?_⟩
  · rw [Array.size_modify]
    exact hlt.le
  · intro i hi
    rw [hother i hi.ne, h.kept i (by rw [Array.size_push]; omega), getD_push, if_neg hi.ne]
  · intro i hi hb
    rw [Array.size_modify] at hb
    rcases eq_or_ne i a.size with rfl | hne
    · rw [hself]
      exact hfile
    · rw [hother i hne]
      exact h.file_eq i (hnew i hi hne) hb
  · intro c hc
    rw [List.mem_singleton.mp hc, hself, Array.size_modify]
    exact ⟨le_rfl, hlt, hparent⟩
  · exact List.pairwise_singleton _ _
  · intro i hi hb
    rw [Array.size_modify] at hb
    rcases eq_or_ne i a.size with rfl | hne
    · exact .inl (List.mem_singleton.mpr rfl)
    · refine .inr ?_
      rcases h.covered i (hnew i hi hne) hb with htop | ⟨q, lo, hq, hp, hm⟩
      · refine ⟨⟨a.size⟩, le_rfl, lt_of_le_of_ne hi hne.symm, ?_, ?_⟩
        · rw [hother i hne]
          exact (h.top _ htop).2.2
        · rw [hself]
          exact htop
      · rw [Array.size_push] at lo
        refine ⟨q, by omega, hq, ?_, ?_⟩
        · rw [hother i hne]
          exact hp
        · rw [hother q.idx (by omega)]
          exact hm
  · intro i hi hb c hc
    rw [Array.size_modify] at hb ⊢
    rcases eq_or_ne i a.size with rfl | hne
    · rw [hself] at hc
      obtain ⟨lo, hi, hp⟩ := h.top c hc
      rw [Array.size_push] at lo
      exact ⟨lo, hi, by rw [hother c.idx (by omega)]; exact hp⟩
    · rw [hother i hne] at hc
      obtain ⟨lt, hi', hp⟩ := h.child i (hnew i hi hne) hb c hc
      exact ⟨lt, hi', by rw [hother c.idx (by omega)]; exact hp⟩
  · intro i hi hb
    rw [Array.size_modify] at hb
    rcases eq_or_ne i a.size with rfl | hne
    · rw [hself]
      exact h.sorted
    · rw [hother i hne]
      exact h.child_sorted i (hnew i hi hne) hb

end Grown

mutual

theorem Tree.grown_layOut (file : FileId) (parent : Option NodeId) (index : Nat) :
    ∀ (t : Tree) (nodes : Array Node),
      Grown file parent nodes (t.layOut file parent index nodes).2
        [(t.layOut file parent index nodes).1]
  | .node _ _ _ _ _ children, nodes =>
    .node rfl rfl (Tree.grown_layOutAll file ⟨nodes.size⟩ 0 children _)

theorem Tree.grown_layOutAll (file : FileId) (parent : NodeId) (index : Nat) :
    ∀ (ts : List Tree) (nodes : Array Node),
      Grown file (some parent) nodes (Tree.layOutAll file parent index ts nodes).2
        (Tree.layOutAll file parent index ts nodes).1
  | [], _ => .nil
  | t :: rest, nodes =>
    (Tree.grown_layOut file (some parent) index t nodes).append
      (Tree.grown_layOutAll file parent (index + 1) rest _)

end

namespace Source

variable {src : Source} {a b c d m n : NodeId} {f : FileId}

theorem mem_fileIds : f ∈ src.fileIds ↔ f.idx < src.files.size := by
  constructor
  · intro h
    obtain ⟨i, hi, rfl⟩ := List.mem_map.mp h
    exact List.mem_range.mp hi
  · intro h
    exact List.mem_map.mpr ⟨f.idx, List.mem_range.mpr h, rfl⟩

/-- The array of nodes is a forest with one tree for each file. -/
structure LaidOut (src : Source) : Prop where
  child_lt : ∀ {n c}, c ∈ src.children n → n.idx < c.idx ∧ c.idx < src.nodes.size
  parent_eq : ∀ {n c}, c ∈ src.children n → src.parent c = some n
  mem_children : ∀ {n m}, src.parent n = some m → n ∈ src.children m
  file_eq : ∀ {n c}, c ∈ src.children n → src.fileOf c = src.fileOf n
  sorted : ∀ n, (src.children n).Pairwise fun a b => a.idx < b.idx
  root : ∀ {f}, f ∈ src.fileIds → (src.file f).root.idx < src.nodes.size ∧
    src.parent (src.file f).root = none ∧ src.fileOf (src.file f).root = f
  rooted : ∀ {n}, n.idx < src.nodes.size → src.parent n = none →
    src.fileOf n ∈ src.fileIds ∧ n = (src.file (src.fileOf n)).root

theorem laidOut_empty : LaidOut {} where
  child_lt h := nomatch h
  parent_eq h := nomatch h
  mem_children h := nomatch h
  file_eq h := nomatch h
  sorted _ := .nil
  root h := nomatch h
  rooted h := nomatch h

theorem node_of_size_le (h : src.nodes.size ≤ n.idx) : src.node n = default := getD_of_size_le h

theorem LaidOut.parent_lt (hs : src.LaidOut) (h : src.parent n = some m) :
    m.idx < n.idx ∧ n.idx < src.nodes.size := hs.child_lt (hs.mem_children h)

section Add

variable {path : String} {contents : ByteArray} {tree : Tree}

theorem file_add :
    (src.add path contents tree).file f =
      if f.idx = src.files.size then ⟨path, contents, ⟨src.nodes.size⟩⟩ else src.file f := by
  cases tree
  exact getD_push

theorem files_size_add : (src.add path contents tree).files.size = src.files.size + 1 :=
  Array.size_push ..

theorem grown_add :
    Grown ⟨src.files.size⟩ none src.nodes (src.add path contents tree).nodes
      [⟨src.nodes.size⟩] := by
  cases tree with
  | node => exact Tree.grown_layOut ⟨src.files.size⟩ none 0 (.node ..) src.nodes

theorem node_add (h : n.idx < src.nodes.size) : (src.add path contents tree).node n = src.node n :=
  grown_add.kept n.idx h

/-- A file more keeps the forest. -/
theorem LaidOut.add (hs : src.LaidOut) : (src.add path contents tree).LaidOut := by
  have hg := @grown_add src path contents tree
  generalize hnew : src.add path contents tree = new at hg ⊢
  have hnode : ∀ {n : NodeId}, n.idx < src.nodes.size → new.node n = src.node n := by
    rw [← hnew]; exact node_add
  have hfiles : new.files.size = src.files.size + 1 := by rw [← hnew]; exact files_size_add
  have hfile : ∀ g, new.file g =
      if g.idx = src.files.size then ⟨path, contents, ⟨src.nodes.size⟩⟩ else src.file g := by
    rw [← hnew]; exact fun g => file_add
  -- A node is an old one, a new one, or none at all.
  have hcases : ∀ n : NodeId, n.idx < src.nodes.size ∨
      (src.nodes.size ≤ n.idx ∧ n.idx < new.nodes.size) ∨ new.node n = default := by
    intro n
    rcases lt_or_ge n.idx src.nodes.size with h | h
    · exact .inl h
    · rcases lt_or_ge n.idx new.nodes.size with h' | h'
      · exact .inr (.inl ⟨h, h'⟩)
      · exact .inr (.inr (node_of_size_le h'))
  have hchild : ∀ {n c}, c ∈ new.children n →
      (n.idx < src.nodes.size ∧ c.idx < src.nodes.size ∧ c ∈ src.children n) ∨
      (src.nodes.size ≤ n.idx ∧ n.idx < c.idx ∧ c.idx < new.nodes.size ∧
        new.parent c = some n) := by
    intro n c hc
    rcases hcases n with h | ⟨lo, hi⟩ | h
    · rw [children, hnode h] at hc
      exact .inl ⟨h, (hs.child_lt hc).2, hc⟩
    · obtain ⟨lt, hc', hp⟩ := hg.child n.idx lo hi c hc
      exact .inr ⟨lo, lt, hc', hp⟩
    · rw [children, h] at hc
      exact nomatch hc
  have htop := hg.top ⟨src.nodes.size⟩ List.mem_cons_self
  refine ⟨?_, ?_, ?_, ?_, ?_, ?_, ?_⟩
  · intro n c hc
    rcases hchild hc with ⟨_, h, hc⟩ | ⟨_, lt, hi, _⟩
    · exact ⟨(hs.child_lt hc).1, h.trans_le hg.size_le⟩
    · exact ⟨lt, hi⟩
  · intro n c hc
    rcases hchild hc with ⟨_, h, hc⟩ | ⟨_, _, _, hp⟩
    · rw [parent, hnode h]
      exact hs.parent_eq hc
    · exact hp
  · intro n m hp
    rcases hcases n with h | ⟨lo, hi⟩ | h
    · rw [parent, hnode h] at hp
      have := hs.mem_children hp
      rwa [children, hnode ((hs.parent_lt hp).1.trans h)]
    · rcases hg.covered n.idx lo hi with htop' | ⟨q, _, _, hq, hm⟩
      · have habs : some m = none := hp.symm.trans (hg.top n htop').2.2
        exact nomatch habs
      · have hmq : some m = some q := hp.symm.trans hq
        rw [Option.some.inj hmq]
        exact hm
    · rw [parent, h] at hp
      exact nomatch hp
  · intro n c hc
    rcases hchild hc with ⟨hn, h, hc⟩ | ⟨lo, lt, hi, _⟩
    · rw [fileOf, fileOf, hnode h, hnode hn]
      exact hs.file_eq hc
    · exact (hg.file_eq c.idx (lo.trans lt.le) hi).trans
        (hg.file_eq n.idx lo (lt.trans hi)).symm
  · intro n
    rcases hcases n with h | ⟨lo, hi⟩ | h
    · rw [children, hnode h]
      exact hs.sorted n
    · exact hg.child_sorted n.idx lo hi
    · rw [children, h]
      exact .nil
  · intro g hmem
    rw [mem_fileIds, hfiles] at hmem
    rw [hfile g]
    split
    · next heq =>
      refine ⟨htop.2.1, htop.2.2, (hg.file_eq _ htop.1 htop.2.1).trans ?_⟩
      rw [← heq]
    · next hne =>
      obtain ⟨lt, hp, hf⟩ := hs.root (mem_fileIds.mpr (by omega : g.idx < src.files.size))
      refine ⟨lt.trans_le hg.size_le, ?_, ?_⟩
      · rw [parent, hnode lt]
        exact hp
      · rw [fileOf, hnode lt]
        exact hf
  · intro n hn hp
    rcases lt_or_ge n.idx src.nodes.size with h | lo
    · rw [parent, hnode h] at hp
      obtain ⟨hmem, hroot⟩ := hs.rooted h hp
      rw [mem_fileIds] at hmem
      rw [fileOf, hnode h, mem_fileIds, hfiles, hfile, if_neg (by exact hmem.ne)]
      exact ⟨hmem.trans (Nat.lt_succ_self _), hroot⟩
    · have hf : new.fileOf n = ⟨src.files.size⟩ := hg.file_eq n.idx lo hn
      rw [hf, mem_fileIds, hfiles, hfile, if_pos rfl]
      refine ⟨Nat.lt_succ_self _, ?_⟩
      rcases hg.covered n.idx lo hn with htop' | ⟨q, _, _, hq, _⟩
      · exact List.mem_singleton.mp htop'
      · have habs : some q = none := hq.symm.trans hp
        exact nomatch habs

end Add

/-- A child found under a field has that field. -/
theorem field_of_child? {field : String} (h : src.child? m field = some n) : src.field n = field := by
  simpa using List.find?_some h

/-! ### The order of the tree -/

/-- `n` is `a` or lies below it. -/
def Below (src : Source) (a n : NodeId) : Prop :=
  Relation.ReflTransGen (fun x y => y ∈ src.children x) a n

namespace Below

theorem refl : src.Below a a := Relation.ReflTransGen.refl

theorem trans (h : src.Below a b) (h' : src.Below b c) : src.Below a c :=
  Relation.ReflTransGen.trans h h'

theorem child (h : src.Below a b) (hc : c ∈ src.children b) : src.Below a c := h.tail hc

theorem child? {field : String} (h : src.Below a b) (hc : src.child? b field = some c) :
    src.Below a c := h.child (List.mem_of_find?_eq_some hc)

theorem namedChild (h : src.Below a b) (hc : c ∈ src.namedChildren b) : src.Below a c :=
  h.child (List.mem_filter.mp hc).1

theorem childUnder {field : String} (h : src.Below a b) (hc : c ∈ src.childrenUnder b field) :
    src.Below a c := h.child (List.mem_filter.mp hc).1

theorem firstNamed? (h : src.Below a b) (hc : src.firstNamed? b = some c) : src.Below a c :=
  h.child (List.mem_of_find?_eq_some hc)

theorem firstOfKind? {kinds : List String} (h : src.Below a b)
    (hc : src.firstOfKind? b kinds = some c) : src.Below a c :=
  h.child (List.mem_of_find?_eq_some hc)

theorem fileOf_eq (hs : src.LaidOut) (h : src.Below a n) : src.fileOf n = src.fileOf a := by
  induction h with
  | refl => rfl
  | tail _ hc ih => exact (hs.file_eq hc).trans ih

theorem idx_le (hs : src.LaidOut) (h : src.Below a n) : a.idx ≤ n.idx := by
  induction h with
  | refl => exact le_rfl
  | tail _ hc ih => exact ih.trans (hs.child_lt hc).1.le

/-- **The nodes above a node form a chain.** -/
theorem linear (hs : src.LaidOut) (ha : src.Below a d) (hb : src.Below b d) :
    src.Below a b ∨ src.Below b a := by
  induction ha with
  | refl => exact .inr hb
  | @tail x y hax hy ih =>
    rcases Relation.ReflTransGen.cases_tail hb with rfl | ⟨z, hbz, hz⟩
    · exact .inl (hax.tail hy)
    · have hxz : x = z := Option.some.inj ((hs.parent_eq hy).symm.trans (hs.parent_eq hz))
      exact ih (hxz ▸ hbz)

end Below

/-- **Different children of a node have nothing in common.** -/
theorem LaidOut.sibling_eq (hs : src.LaidOut) (ha : a ∈ src.children m) (hb : b ∈ src.children m)
    (had : src.Below a d) (hbd : src.Below b d) : a = b := by
  -- A child below another child of the same node would have that node below it.
  have key : ∀ {a b : NodeId}, a ∈ src.children m → b ∈ src.children m → src.Below a b → a = b := by
    intro a b ha hb hab
    rcases Relation.ReflTransGen.cases_tail hab with rfl | ⟨x, hax, hx⟩
    · rfl
    · have hxm : x = m := Option.some.inj ((hs.parent_eq hx).symm.trans (hs.parent_eq hb))
      have h₁ := Below.idx_le hs hax
      have h₂ := (hs.child_lt ha).1
      rw [hxm] at h₁
      omega
  rcases Below.linear hs had hbd with h | h
  · exact key ha hb h
  · exact (key hb ha h).symm

/-- Every node lies below the root of its file. -/
theorem LaidOut.below_root (hs : src.LaidOut) (n : NodeId) (hn : n.idx < src.nodes.size) :
    src.fileOf n ∈ src.fileIds ∧ src.Below (src.file (src.fileOf n)).root n := by
  cases hp : src.parent n with
  | none =>
    obtain ⟨hf, hr⟩ := hs.rooted hn hp
    exact ⟨hf, hr ▸ .refl⟩
  | some m =>
    have hm := hs.parent_lt hp
    obtain ⟨hf, hb⟩ := hs.below_root m (hm.1.trans hm.2)
    have hc := hs.mem_children hp
    rw [hs.file_eq hc]
    exact ⟨hf, hb.child hc⟩
termination_by n.idx
decreasing_by exact hm.1

theorem below_of_mem_walkWithin {descend : NodeId → Bool} {fuel : Nat}
    (h : n ∈ src.walkWithin descend fuel a) : src.Below a n := by
  induction fuel generalizing a with
  | zero => exact nomatch h
  | succ fuel ih =>
    unfold walkWithin at h
    split at h
    · rcases List.mem_cons.mp h with rfl | h
      · exact .refl
      · obtain ⟨c, hc, hn⟩ := List.mem_flatMap.mp h
        exact Below.trans (.child .refl hc) (ih hn)
    · rw [List.mem_singleton.mp h]
      exact .refl

theorem LaidOut.fileOf_of_mem_nodesOf (hs : src.LaidOut) (hf : f ∈ src.fileIds)
    (h : n ∈ src.nodesOf f) : src.fileOf n = f :=
  ((below_of_mem_walkWithin h).fileOf_eq hs).trans (hs.root hf).2.2

end Source

namespace Program

variable {files : List ParsedFile} {src src' : Source}

theorem laidOut_layOut (hs : src.LaidOut) (h : layOut files src = .ok src') : src'.LaidOut := by
  induction files generalizing src with
  | nil =>
    rw [layOut] at h
    rwa [← Except.ok.inj h]
  | cons f rest ih =>
    rw [layOut] at h
    split at h
    · exact nomatch h
    · exact ih hs.add h

/-- **A program is built over a forest.** -/
theorem laidOut_of_build {p : Program} (h : build files = .ok p) :
    ∃ src, p = ofSource src ∧ src.LaidOut := by
  unfold build at h
  cases hl : layOut files {} with
  | error e =>
    rw [hl] at h
    exact nomatch h
  | ok src =>
    rw [hl] at h
    exact ⟨src, (Except.ok.inj h).symm, laidOut_layOut Source.laidOut_empty hl⟩

theorem size_files_layOut (h : layOut files src = .ok src') :
    src'.files.size = src.files.size + files.length := by
  induction files generalizing src with
  | nil =>
    rw [layOut] at h
    rw [Except.ok.inj h]
    rfl
  | cons f rest ih =>
    rw [layOut] at h
    split at h
    · exact nomatch h
    · rw [ih h, Source.files_size_add, List.length_cons]
      omega

/-- A single file can always be built. -/
theorem build_singleton (f : ParsedFile) :
    build [f] = .ok (ofSource (({} : Source).add (Path.clean f.path) f.contents f.tree)) := by
  simp [build, layOut, Except.map]

/-- So can two at different paths. -/
theorem build_pair {f g : ParsedFile} (h : Path.clean f.path ≠ Path.clean g.path) :
    build [f, g] = .ok (ofSource ((({} : Source).add (Path.clean f.path) f.contents f.tree).add
      (Path.clean g.path) g.contents g.tree)) := by
  simp [build, layOut, Except.map, Source.add, h]

end Program
end Moniker
