/-
# What binding a request adds

A request that is bound already changes nothing.  Any other adds its name to those of its
target, and the lines that say so: there are six ways (`Addition`), and every one of them
leaves the target's other names, the other targets and the earlier lines alone (`Added`).
-/

import Moniker.Bundle

namespace Moniker
namespace Bundle

variable {p : Program} {s s' : State} {r : Request} {sh : Shape} {t u : SymbolId} {n : NodeId}
  {name : String}

/-- The request asks for a declaration by the name it is declared under. -/
def Shape.Names (p : Program) (sh : Shape) (r : Request) : Prop :=
  sh.kind ≠ .defaultValue ∧ r.localName = (p.symbol r.target).name

/-- The lines and names that a request adds. -/
inductive Addition (p : Program) (s : State) (r : Request) (sh : Shape) :
    List Line → List String → Prop
  /-- The statement has been copied for another of its targets. -/
  | stated (hname : sh.Names p r) (he : s.emitted.contains sh.decl = true) :
    Addition p s r sh [] [r.localName]
  /-- The target is known by another name. -/
  | again {first : String} {rest : List String} (hknown : s.namesOf r.target = first :: rest) :
    Addition p s r sh [.another r.localName r.target first] [r.localName]
  | declared (hname : sh.Names p r) (he : s.emitted.contains sh.decl = false)
    (hnew : s.namesOf r.target = []) :
    Addition p s r sh [.declaration r.target sh.decl] [r.localName]
  | value (hname : ¬ sh.Names p r) (hkind : sh.kind ≠ .variableDecl)
    (hnew : s.namesOf r.target = []) :
    Addition p s r sh [.value r.localName r.target sh.decl] [r.localName]
  /-- The statement of a variable has been copied for another of its targets. -/
  | renamed (hkind : sh.kind = .variableDecl) (he : s.emitted.contains sh.decl = true)
    (hnew : s.namesOf r.target = []) :
    Addition p s r sh [.another r.localName r.target (p.symbol r.target).name] [r.localName]
  | both (hkind : sh.kind = .variableDecl) (hne : r.localName ≠ (p.symbol r.target).name)
    (he : s.emitted.contains sh.decl = false) (hnew : s.namesOf r.target = []) :
    Addition p s r sh
      [.declaration r.target sh.decl, .another r.localName r.target (p.symbol r.target).name]
      [(p.symbol r.target).name, r.localName]

namespace State

/-- The declarations copied, with the targets they are copies of. -/
def hoists (s : State) : List (SymbolId × Hoisted) :=
  s.events.toList.filterMap fun
    | .hoisted t h => some (t, h)
    | .warned _ => none

@[simp] theorem hoists_warn {d : Diagnostic} : (s.warn d).hoists = s.hoists := by
  simp [hoists, warn]

end State

/-- The state has more lines and names than before, and nothing less. -/
structure Added (s : State) (t : SymbolId) (ls : List Line) (ns : List String) (s' : State) :
    Prop where
  lines : s'.lines.toList = s.lines.toList ++ ls
  names : ∀ u, s'.namesOf u = s.namesOf u ++ if t = u then ns else []
  emitted : ∀ d, s'.emitted.contains d = true ↔
    s.emitted.contains d = true ∨ ∃ u, Line.declaration u d ∈ ls
  hoists : s'.hoists = s.hoists

namespace Added

variable {s₁ s₂ s₃ : State} {ls ls' : List Line} {ns ns' : List String}

theorem refl (s : State) (t : SymbolId) : Added s t [] [] s where
  lines := (List.append_nil _).symm
  names u := by rw [ite_self, List.append_nil]
  emitted d := by simp
  hoists := rfl

theorem trans (h₁ : Added s₁ t ls ns s₂) (h₂ : Added s₂ t ls' ns' s₃) :
    Added s₁ t (ls ++ ls') (ns ++ ns') s₃ where
  lines := by rw [h₂.lines, h₁.lines, List.append_assoc]
  names u := by
    rw [h₂.names, h₁.names, List.append_assoc]
    split <;> rfl
  emitted d := by
    rw [h₂.emitted, h₁.emitted]
    simp only [List.mem_append, exists_or, or_assoc]
  hoists := h₂.hoists.trans h₁.hoists

/-- A line that copies no statement. -/
theorem emit {l : Line} (h : ∀ u d, l ≠ .declaration u d) : Added s t [l] [] (s.emit l) where
  lines := Array.toList_push
  names u := by rw [ite_self, List.append_nil]; rfl
  emitted d := by
    have hl : ¬ ∃ u, Line.declaration u d ∈ [l] := by
      rintro ⟨u, hu⟩
      exact h u d (List.mem_singleton.mp hu).symm
    exact (or_iff_left hl).symm
  hoists := rfl

theorem copy {d : NodeId} : Added s t [.declaration u d] [] (s.copy u d) where
  lines := Array.toList_push
  names u := by rw [ite_self, List.append_nil]; rfl
  emitted e := by
    have hline : (∃ u', Line.declaration u' e ∈ [Line.declaration u d]) ↔ d = e := by
      constructor
      · rintro ⟨u', h⟩
        exact (Line.declaration.inj (List.mem_singleton.mp h)).2.symm
      · rintro rfl
        exact ⟨u, List.mem_singleton.mpr rfl⟩
    change (s.emitted.insert d).contains e = true ↔ _
    rw [hline, KeySet.contains_insert, Bool.or_eq_true_iff, beq_iff_eq, or_comm]
  hoists := rfl

theorem addName : Added s t [] [name] (s.addName p t name n) where
  lines := by
    unfold State.addName State.claim
    dsimp only
    split <;> exact (List.append_nil _).symm
  names u := by
    have hbound : (s.claim p name t n).bound = s.bound := by
      unfold State.claim
      dsimp only
      split <;> rfl
    unfold State.addName State.namesOf
    dsimp only
    rw [hbound, Table.getD_insert]
    by_cases h : t = u
    · simp [h]
    · simp [h]
  emitted d := by
    unfold State.addName State.claim
    dsimp only
    split <;> simp [State.warn]
  hoists := by
    unfold State.addName State.claim
    dsimp only
    split
    · exact State.hoists_warn
    · rfl

end Added

/-- Only lines are added, unless the target gets the name it is declared under as well. -/
theorem introduce_cases (p : Program) (s : State) (r : Request) (sh : Shape) :
    (∃ ls emitted, s.introduce p r sh = { s with lines := ls, emitted := emitted }) ∨
      ∃ ls emitted l, s.introduce p r sh =
        (({ s with lines := ls, emitted := emitted } : State).addName p r.target
          (p.symbol r.target).name r.cause).emit l := by
  unfold State.introduce
  dsimp only
  split
  · exact .inl ⟨s.lines, s.emitted, rfl⟩
  split
  · exact .inl ⟨_, s.emitted, rfl⟩
  split
  · exact .inl ⟨_, _, rfl⟩
  split
  · exact .inl ⟨_, s.emitted, rfl⟩
  split
  · exact .inl ⟨_, s.emitted, rfl⟩
  · exact .inr ⟨_, _, _, rfl⟩

/-- The lines are added first, and at last the name that is asked for. -/
theorem introduce_adds (p : Program) (s : State) (r : Request) (sh : Shape) :
    ∃ ls ns, Addition p s r sh ls (ns ++ [r.localName]) ∧
      Added s r.target ls ns (s.introduce p r sh) := by
  have hname : (sh.kind != .defaultValue && r.localName == (p.symbol r.target).name) = true ↔
      sh.Names p r := by
    rw [Bool.and_eq_true_iff, bne_iff_ne, beq_iff_eq]
    rfl
  unfold State.introduce
  dsimp only
  split
  · next h =>
    obtain ⟨hown, he⟩ := Bool.and_eq_true_iff.mp h
    exact ⟨[], [], .stated (hname.mp hown) he, .refl s _⟩
  next hstated =>
  split
  · next first rest hknown =>
    exact ⟨_, [], .again hknown, .emit nofun⟩
  next hnew =>
  split
  · next hown =>
    have he : s.emitted.contains sh.decl = false := by
      rw [hown, Bool.true_and] at hstated
      exact eq_false_of_ne_true hstated
    exact ⟨_, [], .declared (hname.mp hown) he hnew, .copy⟩
  next hown =>
  have hown : ¬ sh.Names p r := fun h => hown (hname.mpr h)
  split
  · next hkind =>
    exact ⟨_, [], .value hown (bne_iff_ne.mp hkind) hnew, .emit nofun⟩
  next hkind =>
  have hkind : sh.kind = .variableDecl := by simpa using hkind
  have hne : r.localName ≠ (p.symbol r.target).name := by
    intro h
    refine hown ⟨?_, h⟩
    rw [hkind]
    exact nofun
  cases he : s.emitted.contains sh.decl with
  | true => exact ⟨_, [], .renamed hkind he hnew, .emit nofun⟩
  | false =>
    refine ⟨_, [(p.symbol r.target).name], .both hkind hne he hnew, ?_⟩
    exact (Added.copy.trans .addName).trans (.emit nofun)

/-- What is reported of a declaration that is copied for a request. -/
def hoistedFor (p : Program) (r : Request) (sh : Shape) : Hoisted :=
  ⟨(p.symbol r.target).name, r.localName, (p.source.file (p.symbol r.target).file).path, sh.kind⟩

/-- **A request that is not bound yet adds its name, and lines in one of six ways.** -/
theorem bind_adds (h : r.localName ∉ s.namesOf r.target) :
    ∃ ls ns, Addition p s r sh ls ns ∧
      (s.bind p r sh).lines.toList = s.lines.toList ++ ls ∧
      (∀ u, (s.bind p r sh).namesOf u = s.namesOf u ++ if r.target = u then ns else []) ∧
      (∀ d, (s.bind p r sh).emitted.contains d = true ↔
        s.emitted.contains d = true ∨ ∃ u, Line.declaration u d ∈ ls) ∧
      (s.bind p r sh).hoists = s.hoists ++ [(r.target, hoistedFor p r sh)] := by
  obtain ⟨ls, ns, haddition, hadded⟩ := introduce_adds p s r sh
  have hall := hadded.trans (@Added.addName p (s.introduce p r sh) r.target r.cause r.localName)
  rw [List.append_nil] at hall
  unfold State.bind
  rw [if_neg (by simpa using h)]
  refine ⟨ls, _, haddition, hall.lines, hall.names, hall.emitted, ?_⟩
  rw [← hall.hoists]
  simp [State.hoists, hoistedFor]

theorem Addition.localName_mem {ls : List Line} {ns : List String} (h : Addition p s r sh ls ns) :
    r.localName ∈ ns := by
  cases h with
  | both => exact List.mem_cons_of_mem _ List.mem_cons_self
  | _ => exact List.mem_cons_self

namespace State

/-- A target keeps its names. -/
theorem mem_namesOf_bind (h : name ∈ s.namesOf u) : name ∈ (s.bind p r sh).namesOf u := by
  by_cases hr : r.localName ∈ s.namesOf r.target
  · unfold bind
    rwa [if_pos (by simpa using hr)]
  · obtain ⟨ls, ns, -, -, hnames, -⟩ := @bind_adds p s r sh hr
    rw [hnames]
    exact List.mem_append_left _ h

theorem localName_mem_bind : r.localName ∈ (s.bind p r sh).namesOf r.target := by
  by_cases hr : r.localName ∈ s.namesOf r.target
  · exact mem_namesOf_bind hr
  · obtain ⟨ls, ns, haddition, -, hnames, -⟩ := @bind_adds p s r sh hr
    rw [hnames, if_pos rfl]
    exact List.mem_append_right _ haddition.localName_mem

/-- Only the target gets names. -/
theorem namesOf_bind_of_ne (h : r.target ≠ u) : (s.bind p r sh).namesOf u = s.namesOf u := by
  by_cases hr : r.localName ∈ s.namesOf r.target
  · unfold bind
    rw [if_pos (by simpa using hr)]
  · obtain ⟨ls, ns, -, -, hnames, -⟩ := @bind_adds p s r sh hr
    rw [hnames, if_neg h, List.append_nil]

end State

end Bundle
end Moniker
