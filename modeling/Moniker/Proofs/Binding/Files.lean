/-
# A file statement by statement

Declaring everything in a file is a run below its root (`bindFile_run`).  It visits
the statements at the top of the file in turn, each from a state `Between` two of
them.  So whatever the visit of every statement keeps holds after the file
(`bindFile_keeps`), and so does what the visit of one statement brings about and the
visits of the others keep (`bindFile_of_mem`).
-/

import Moniker.Proofs.Binding.Visits

namespace Moniker
namespace Binding

variable {src : Source} {f : FileId} {n : NodeId} {sc : ScopeId} {p : Program} {st : State}

/-- Where the visit of a file starts. -/
def Site.ofFile (src : Source) (f : FileId) : Site :=
  { module := ⟨f.idx⟩, file := f, ambient := isDeclarationPath (src.file f).path }

/-- **Declaring everything in a file is a run below its root.** -/
theorem bindFile_run (hs : src.LaidOut)
    (hk : Known src (.ofFile src f) (src.file f).root p) :
    ∃ l, Run src f none (src.file f).root ([], p) (l, (bindFile src f).after p) :=
  ⟨_, visitChildren_keeps (P := At src (.ofFile src f) (p.moduleOf f).scope) hs
    (visitWithin_keeps hs _) (fun _ _ h => h) .refl [] p hk hk.module⟩

/-- The statements at the top of a file. -/
def topNodes (src : Source) (f : FileId) : List NodeId :=
  (src.children (src.file f).root).filter src.named

/-- The visit of a statement at the top of a file. -/
def visitTop (src : Source) (f : FileId) (sc : ScopeId) (n : NodeId) : Bind Unit :=
  visitWithin src (src.nodes.size + 1) (Site.ofFile src f) n sc

/-- The state between two statements of a file with the scope `sc`. -/
structure Between (src : Source) (f : FileId) (sc : ScopeId) (st : State) : Prop where
  known : Known src (.ofFile src f) (src.file f).root st.2
  scope : (st.2.moduleOf f).scope = sc

theorem Between.run (hs : src.LaidOut) (h : Between src f sc st) (hn : n ∈ topNodes src f) :
    Run src f none n st (Bind.after (visitTop src f sc n) st) ∧
      Between src f sc (Bind.after (visitTop src f sc n) st) := by
  have hk := h.known
  have hmodule : At src (.ofFile src f) (st.2.moduleOf f).scope st.2 := hk.module
  rw [h.scope] at hmodule
  have hrun : Run src f none n st (Bind.after (visitTop src f sc n) st) := by
    refine visitWithin_keeps hs _ (.ofFile src f) n sc st.1 st.2 { hk with file := ?_ } hmodule
    exact (hs.file_eq (List.mem_filter.mp hn).1).trans hk.file
  exact ⟨hrun, hk.run hrun, (hrun.grows.module ⟨f.idx⟩ hk.module_lt).scope.trans h.scope⟩

theorem after_bindFile : (bindFile src f).after p =
    ((topNodes src f).foldl (fun st n => Bind.after (visitTop src f (p.moduleOf f).scope n) st)
      ([], p)).2 := by
  change (Bind.after ((topNodes src f).forM (visitTop src f (p.moduleOf f).scope)) ([], p)).2 = _
  rw [Bind.after_forM_eq]

/-- What the visit of every statement keeps holds after the file. -/
theorem bindFile_keeps {I : Program → Prop} (hs : src.LaidOut)
    (h : ∀ n ∈ topNodes src f, ∀ st, Between src f (p.moduleOf f).scope st → I st.2 →
      I (Bind.after (visitTop src f (p.moduleOf f).scope n) st).2)
    (hk : Known src (.ofFile src f) (src.file f).root p) (hp : I p) : I ((bindFile src f).after p) := by
  rw [after_bindFile]
  refine (foldl_keeps (I := fun st => Between src f (p.moduleOf f).scope st ∧ I st.2)
    (fun n hn st hst => ?_) ⟨⟨hk, rfl⟩, hp⟩).2
  exact ⟨(hst.1.run hs hn).2, h n hn st hst.1 hst.2⟩

/-- **What the visit of one statement brings about holds after the file,** if the visits
of the others keep it. -/
theorem bindFile_of_mem {I : Program → Prop} (hs : src.LaidOut) (hn : n ∈ topNodes src f)
    (start : ∀ st sc, Between src f sc st → I (Bind.after (visitTop src f sc n) st).2)
    (keep : ∀ m ∈ topNodes src f, m ≠ n → ∀ st st', Run src f none m st st' → I st.2 → I st'.2)
    (hk : Known src (.ofFile src f) (src.file f).root p) : I ((bindFile src f).after p) := by
  have hstart : Between src f (p.moduleOf f).scope ([], p) := ⟨hk, rfl⟩
  rw [after_bindFile]
  exact foldl_of_mem (I := fun st => I st.2) (J := Between src f (p.moduleOf f).scope) hn
    (fun m hm _ hst => (hst.run hs hm).2) (fun st hst => start st _ hst)
    (fun m hm hne st hst h => keep m hm hne st _ (hst.run hs hm).1 h) hstart

end Binding
end Moniker
